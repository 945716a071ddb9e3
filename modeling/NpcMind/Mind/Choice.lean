import NpcMind.Archetype
import NpcMind.Config.Basic
import NpcMind.Kernel.Elementwise

/-!
# Choosing an action

The first values that the controller gives out are logits of the actions, the six after them continuous
signals. Personality favours some actions, and those that need company are left out without any.
-/

namespace NpcMind

/-- The continuous part of a decision. -/
structure Signals where
  movement : Float32 × Float32 := (0, 0)
  speed : Float32 := 0
  memoryWrite : Float32 := 0
  learningRate : Float32 := 0
  intensity : Float32 := 0

namespace Choice

/-- The largest learning rate that a signal can ask for. -/
def maxLearningRate : Float32 := 0.1

/-- A value between -1 and 1 as one between 0 and 1. -/
def toUnit (h : Float32) : Float32 := Single.unit ((h + 1) * 0.5)

/-- The signals of a readout. -/
def signals (readout : Vec) : Outcome Signals := do
  requireWithin Config.readoutWidth readout.size
  let s (i : Nat) : Float32 := readout.getD (Action.count + i) 0
  return {
    movement := (Single.signed (s 0), Single.signed (s 1))
    speed := toUnit (s 2)
    memoryWrite := toUnit (s 3)
    learningRate := toUnit (s 4) * maxLearningRate
    intensity := toUnit (s 5) }

/-- Probabilities with those of some actions multiplied by a factor. -/
def favour (biases : List (Action × Float32)) (probs : Vec) : Vec :=
  biases.foldl (fun probs (action, factor) => probs.modify action.index (· * factor)) probs

/-- Probabilities without the actions that need company. -/
def withoutCompany (probs : Vec) : Vec :=
  probs.mapIdx fun i p => if ((Action.ofIndex? i).map Action.needsInterlocutor).getD false then 0 else p

/-- Weights divided by their sum; all on the first action if the sum is of no use. -/
def normalize (weights : Vec) : Vec :=
  let total := Vec.total weights
  if total > 0 && total.isFinite then weights.map (· / total)
  else weights.mapIdx fun i _ => if i = Action.idle.index then 1 else 0

/-- The distribution over actions of a readout. -/
def distribution (readout : Vec) (logitScale : Float32) (a : Archetype) (company : Bool) : Outcome Vec := do
  requireWithin Action.count readout.size
  let probs := Kernel.softmax ((readout.extract 0 Action.count).map (· * logitScale))
  let probs := favour a.actionBiases probs
  return normalize (if company then probs else withoutCompany probs)

/-- The place of the largest probability, the first of several. -/
def mode (probs : Vec) : Nat :=
  (probs.zipIdx.foldl (fun best (p, i) => if p > best.2 then (i, p) else best) (0, -Single.infinity)).1

/-- The action at a place, or none. -/
def actionAt (i : Nat) : Action := (Action.ofIndex? i).getD .idle

/-- The most likely action. -/
def mostLikely (probs : Vec) : Action := actionAt (mode probs)

/-- The first place with a positive probability at which the sum so far reaches a number. -/
def reach (u : Float32) : Float32 → Nat → List Float32 → Option Nat
  | _, _, [] => none
  | sum, i, p :: rest => if p > 0 && u ≤ sum + p then some i else reach u (sum + p) (i + 1) rest

/-- The action that a number between 0 and 1 picks; the most likely one if rounding leaves the sum below
the number. -/
def sample (probs : Vec) (u : Float32) : Action :=
  match reach u 0 0 probs.toList with
  | some i => actionAt i
  | none => mostLikely probs

/-- The gradient of the logarithm of an action's probability with respect to `size` values of the
controller. -/
def policyGradient (probs : Vec) (action : Action) (logitScale : Float32) (size : Nat) : Vec :=
  (Array.range size).map fun j =>
    match probs[j]? with
    | some p => logitScale * ((if j = action.index then 1 else 0) - p)
    | none => 0

end Choice

end NpcMind
