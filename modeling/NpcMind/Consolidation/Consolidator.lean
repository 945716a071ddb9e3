import NpcMind.Config.Basic
import NpcMind.Consolidation.Task

/-!
# Consolidation

A consolidator keeps a bounded number of tasks and weighs their penalty by lambda, which adapts to how
well earlier behaviour holds up. When there is no room for a new task, one is given up.
-/

namespace NpcMind

/-- The tasks to keep and the weight of their penalty. -/
structure Consolidator where
  parameterCount : Nat
  tasks : List (Task Float32) := []
  maxTasks : Nat
  lambda : Float32
  minLambda : Float32
  maxLambda : Float32
  lambdaDecay : Float32
  prunePolicy : PrunePolicy
  /-- The validation loss when lambda was last adapted. -/
  previousValidation : Option Float32 := none
  /-- How many tasks were ever stored. -/
  consolidations : UInt64 := 0

/-- What is saved of a consolidator. -/
structure ConsolidatorRecord where
  parameterCount : Nat
  lambda : Float32
  previousValidation : Option Float32
  consolidations : UInt64
  tasks : List (Task Float32)

namespace Consolidator

/-- A value moved between two ends, which have to be in order. -/
def between (lo hi x : Float32) : Outcome Float32 :=
  if lo ≤ hi then .ok (Single.clamp lo hi x) else .error (.fault .emptyInterval)

/-- The number of bytes of a task, apart from what it refers to. -/
def taskBytes : Nat := 112

/-- A consolidator without tasks. Room for all of them is set aside. -/
def ofConfig (parameterCount : Nat) (c : Config.Consolidation) : Outcome Consolidator := do
  requireRoom c.maxTasks taskBytes
  return {
    parameterCount
    maxTasks := c.maxTasks
    lambda := ← between c.minLambda c.maxLambda c.lambda
    minLambda := c.minLambda
    maxLambda := c.maxLambda
    lambdaDecay := c.lambdaDecay
    prunePolicy := c.prunePolicy }

/-- The number of entries of all tasks. -/
def entryCount (k : Consolidator) : Nat := Penalty.entryCount k.tasks

/-- Another lambda, moved into its range. -/
def setLambda (k : Consolidator) (lambda : Float32) : Outcome Consolidator := do
  return { k with lambda := ← between k.minLambda k.maxLambda lambda }

/-- Another range of lambda. -/
def setRange (k : Consolidator) (minLambda maxLambda : Float32) : Outcome Consolidator := do
  if minLambda < 0 || minLambda > maxLambda then throw (.config "lambda range is inverted or negative")
  { k with minLambda, maxLambda }.setLambda k.lambda

/-- The first place of tasks at which an order has no smaller one. -/
def leastBy (less : Task Float32 → Task Float32 → Bool) (tasks : List (Task Float32)) : Option Nat :=
  (tasks.zipIdx.foldl
    (fun best (t, i) =>
      match best with
      | none => some (i, t)
      | some (j, u) => if less t u then some (i, t) else some (j, u))
    none).map Prod.fst

/-- Older. -/
def older (t u : Task Float32) : Bool := t.createdTick < u.createdTick

/-- Less important, or as important and older. -/
def lessImportant (t u : Task Float32) : Bool :=
  Single.rank t.importance < Single.rank u.importance ||
    (Single.rank t.importance == Single.rank u.importance && older t u)

/-- The place of the task to be given up next. -/
def victim? (k : Consolidator) : Option Nat :=
  match k.prunePolicy with
  | .leastImportant => leastBy lessImportant k.tasks
  | .oldest => leastBy older k.tasks

/-- Give up a task if there is no room for another. -/
def makeRoom (k : Consolidator) : Option (Task Float32) × Consolidator :=
  if k.tasks.length < k.maxTasks then (none, k)
  else
    match k.victim? with
    | none => (none, k)
    | some i => (k.tasks[i]?, { k with tasks := k.tasks.eraseIdx i })

/-- Store a task under the identity `id`, and say which one was given up for it. -/
def consolidate (k : Consolidator) (id : Uuid) (name : String) (optimal : Vec) (fisher : FisherTable Float32)
    (importance : Float32) (tick : UInt64) : Outcome (Option (Task Float32) × Consolidator) := do
  if optimal.size ≠ k.parameterCount then throw (.parameterCount k.parameterCount optimal.size)
  fisher.validate k.parameterCount
  let (pruned, k) := k.makeRoom
  let task : Task Float32 :=
    { id, name, optimal, fisher, importance := Single.larger importance 0, createdTick := tick }
  return (pruned, { k with tasks := k.tasks ++ [task], consolidations := k.consolidations + 1 })

/-- Take out the first task of that identity. -/
def remove (k : Consolidator) (id : Uuid) : Option (Task Float32) × Consolidator :=
  match k.tasks.findIdx? (·.id == id) with
  | none => (none, k)
  | some i => (k.tasks[i]?, { k with tasks := k.tasks.eraseIdx i })

/-- No tasks again, and no loss to compare with. -/
def clear (k : Consolidator) : Consolidator := { k with tasks := [], previousValidation := none }

/-- The penalty for parameters, of which there have to be enough. -/
def penalty (k : Consolidator) (current : Vec) : Outcome (PenaltyReport Float32) :=
  if k.tasks.all (·.covers current.size) then .ok (Penalty.report k.lambda k.tasks current)
  else .error .outOfBounds

/-- The derivatives of the penalty, one for each entry of each task. -/
def penaltyGradient (k : Consolidator) (current : Vec) : Outcome (List (Nat × Float32)) :=
  if k.tasks.all (·.covers current.size) then .ok (Penalty.gradient k.lambda k.tasks current)
  else .error .outOfBounds

/-- The derivatives of the penalty added to a vector, and how many there were. -/
def addPenaltyGradient (k : Consolidator) (current gradient : Vec) : Outcome (Nat × Vec) := do
  expectSize "penalty gradient" k.parameterCount gradient.size
  if k.tasks.all fun t => t.covers current.size && t.covers gradient.size then
    return Penalty.addGradient k.lambda k.tasks current gradient
  else throw .outOfBounds

/-- Lambda after looking at the losses: more if earlier behaviour is being forgotten, less if there is no
room to learn. -/
def adapted (k : Consolidator) (currentLoss validationLoss : Float32) : Float32 :=
  match k.previousValidation with
  | none => k.lambda
  | some previous =>
    let change := validationLoss - previous
    if change > 0.01 then Single.smaller (k.lambda * 1.1) k.maxLambda
    else if change < -0.01 && currentLoss > validationLoss * 1.5 then
      Single.larger (k.lambda * 0.9) k.minLambda
    else k.lambda

/-- Adapt lambda to the losses, and let it decay. -/
def updateLambda (k : Consolidator) (currentLoss validationLoss : Float32) : Outcome Consolidator := do
  return { k with
    lambda := ← between k.minLambda k.maxLambda (k.adapted currentLoss validationLoss * k.lambdaDecay)
    previousValidation := some validationLoss }

/-- A lambda that suits the number of parameters and tasks. -/
def recommendedLambda (k : Consolidator) : Float32 :=
  100 * Single.log (max k.parameterCount 1).toFloat32 * (1 + 0.5 * k.tasks.length.toFloat32)

/-- What is saved of the consolidator. -/
def toRecord (k : Consolidator) : ConsolidatorRecord :=
  ⟨k.parameterCount, k.lambda, k.previousValidation, k.consolidations, k.tasks⟩

/-- Refuse a task that does not fit the number of parameters. -/
def checkTask (k : Consolidator) (t : Task Float32) : Outcome Unit := do
  if t.optimal.size ≠ k.parameterCount then throw (.parameterCount k.parameterCount t.optimal.size)
  t.fisher.validate k.parameterCount

/-- The consolidator with what was saved put back, if all of it fits. -/
def restore (k : Consolidator) (r : ConsolidatorRecord) : Outcome Consolidator := do
  if r.parameterCount ≠ k.parameterCount then throw (.parameterCount k.parameterCount r.parameterCount)
  if r.tasks.length > k.maxTasks then throw (.exhausted "consolidation tasks" k.maxTasks)
  r.tasks.forM k.checkTask
  { k with
    tasks := r.tasks
    previousValidation := r.previousValidation
    consolidations := r.consolidations }.setLambda r.lambda

end Consolidator

instance : Codec ConsolidatorRecord where
  encode k := .record [
    ("parameter_count", Codec.encode k.parameterCount),
    ("lambda", Codec.encode k.lambda),
    ("previous_validation", Codec.encode k.previousValidation),
    ("consolidations", Codec.encode k.consolidations),
    ("tasks", Codec.encode k.tasks)]
  decode? d := do
    let r ← d.entries? ["parameter_count", "lambda", "previous_validation", "consolidations", "tasks"]
    return {
      parameterCount := ← r.get "parameter_count"
      lambda := ← r.get "lambda"
      previousValidation := ← r.get "previous_validation"
      consolidations := ← r.get "consolidations"
      tasks := ← r.get "tasks" }

end NpcMind
