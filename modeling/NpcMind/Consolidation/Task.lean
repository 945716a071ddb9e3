import NpcMind.Consolidation.FisherTable

/-!
# Tasks

A task is a behaviour worth keeping: the parameters it was learned with and how much each of them
matters. Parameters that stray from them are penalised by the squares of the distances. The penalty and
its gradient are over any type of numbers.
-/

namespace NpcMind

/-- A behaviour worth keeping. -/
structure Task (α : Type) where
  id : Uuid
  name : String
  /-- The parameters it was learned with. -/
  optimal : Array α
  fisher : FisherTable α
  importance : α
  createdTick : UInt64

namespace Task

variable {α : Type} [OfNat α 0] [OfNat α 2] [Add α] [Sub α] [Mul α]

/-- How far a parameter is from where it was learned. -/
def offset (t : Task α) (current : Array α) (i : Nat) : α := current.getD i 0 - t.optimal.getD i 0

/-- The squares of the distances, weighed by how much the parameters matter, and how many entries were
looked at for them. -/
@[specialize] def drift (t : Task α) (current : Array α) : α × Nat :=
  t.fisher.entries.foldl
    (fun sum e => (sum.1 + e.2 * t.offset current e.1 * t.offset current e.1, sum.2 + 1)) (0, 0)

/-- The derivatives of the penalty that is due to the task. -/
@[specialize] def gradient (t : Task α) (lambda : α) (current : Array α) : List (Nat × α) :=
  t.fisher.entries.map fun e => (e.1, 2 * lambda * t.importance * e.2 * t.offset current e.1)

/-- Every entry of the task has its parameter. -/
def covers (t : Task α) (size : Nat) : Bool :=
  t.fisher.entries.all fun e => e.1 < t.optimal.size && e.1 < size

end Task

/-- A penalty and the effort of computing it. -/
structure PenaltyReport (α : Type) where
  value : α
  /-- How many entries were looked at. -/
  visited : Nat
  tasks : Nat

namespace Penalty

variable {α : Type} [OfNat α 0] [OfNat α 2] [Add α] [Sub α] [Mul α]

/-- The drifts of tasks, weighed by their importance, and how many entries were looked at for them. -/
@[specialize] def drifts (tasks : List (Task α)) (current : Array α) : α × Nat :=
  tasks.foldl
    (fun total t => (total.1 + t.importance * (t.drift current).1, total.2 + (t.drift current).2)) (0, 0)

/-- The penalty for parameters that stray from tasks, with the effort of computing it. -/
def report (lambda : α) (tasks : List (Task α)) (current : Array α) : PenaltyReport α :=
  let total := drifts tasks current
  ⟨lambda * total.1, total.2, tasks.length⟩

/-- The number of entries of tasks. -/
def entryCount (tasks : List (Task α)) : Nat := tasks.foldr (fun t n => t.fisher.size + n) 0

/-- The derivatives of the penalty, one for each entry of each task. -/
@[specialize] def gradient (lambda : α) (tasks : List (Task α)) (current : Array α) : List (Nat × α) :=
  tasks.flatMap fun t => t.gradient lambda current

/-- The derivatives of the penalty added to a vector one by one, and how many there were. -/
def addGradient (lambda : α) (tasks : List (Task α)) (current gradientSoFar : Array α) : Nat × Array α :=
  (gradient lambda tasks current).foldl (fun g e => (g.1 + 1, g.2.modify e.1 (· + e.2))) (0, gradientSoFar)

end Penalty

/-- Tasks are saved with their parameters and tables. -/
instance : Codec (Task Float32) where
  encode t := .record [
    ("id", Codec.encode t.id),
    ("name", Codec.encode t.name),
    ("optimal", Codec.encode t.optimal),
    ("fisher", Codec.encode t.fisher),
    ("importance", Codec.encode t.importance),
    ("created_tick", Codec.encode t.createdTick)]
  decode? d := do
    let r ← d.entries? ["id", "name", "optimal", "fisher", "importance", "created_tick"]
    return {
      id := ← r.get "id"
      name := ← r.get "name"
      optimal := ← r.get "optimal"
      fisher := ← r.get "fisher"
      importance := ← r.get "importance"
      createdTick := ← r.get "created_tick" }

end NpcMind
