import NpcMind.Budget
import NpcMind.Document.Codec

/-!
# The state of a recurrent layer

What one agent's layer carries from step to step, and what it keeps of the last step for learning. Only
the former is saved.
-/

namespace NpcMind

/-- The four gates of a layer. -/
inductive Gate where
  /-- How much of the cell is kept. -/
  | forget
  /-- How much of the candidate is taken in. -/
  | input
  /-- What may be taken in. -/
  | candidate
  /-- How much of the cell is shown. -/
  | output
  deriving DecidableEq, Repr

namespace Gate

/-- Every gate, in the order of the weights. -/
def all : List Gate := [.forget, .input, .candidate, .output]

/-- The place of a gate. -/
def index (g : Gate) : Nat := g.ctorIdx

end Gate

/-- The state of one layer of one agent. -/
structure CellState where
  hidden : Vec
  cell : Vec
  /-- The cell before the last step. -/
  previousCell : Vec
  /-- The gates of the last step, one after the other. -/
  gates : Vec
  /-- The input of the last step followed by the hidden values before it. -/
  intake : Vec
  steps : UInt64 := 0

/-- What is saved of a layer's state. -/
structure StateRecord where
  hidden : Vec
  cell : Vec
  steps : UInt64

instance : Codec StateRecord where
  encode r := .record [
    ("hidden", Codec.encode r.hidden),
    ("cell", Codec.encode r.cell),
    ("steps", Codec.encode r.steps)]
  decode? d := do
    let r ← d.entries? ["hidden", "cell", "steps"]
    return { hidden := ← r.get "hidden", cell := ← r.get "cell", steps := ← r.get "steps" }

namespace CellState

/-- The state of a layer that has made no step. -/
def initial (inputSize hiddenSize : Nat) : CellState where
  hidden := Vec.zeros hiddenSize
  cell := Vec.zeros hiddenSize
  previousCell := Vec.zeros hiddenSize
  gates := Vec.zeros (4 * hiddenSize)
  intake := Vec.zeros (vectorSize (wrap (inputSize + hiddenSize)))

instance : Inhabited CellState := ⟨initial 0 0⟩

/-- Charge the state of a layer to a budget. -/
def charge (b : Budget) (inputSize hiddenSize : Nat) : Outcome Unit × Budget :=
  b.takeVectors [hiddenSize, hiddenSize, hiddenSize, 4 * hiddenSize, wrap (inputSize + hiddenSize)]

/-- The values of one gate in the last step. -/
def gate (s : CellState) (g : Gate) : Vec :=
  s.gates.extract (g.index * s.hidden.size) ((g.index + 1) * s.hidden.size)

/-- The state before the first step. -/
def reset (s : CellState) : CellState where
  hidden := Vec.zeros s.hidden.size
  cell := Vec.zeros s.cell.size
  previousCell := Vec.zeros s.previousCell.size
  gates := Vec.zeros s.gates.size
  intake := Vec.zeros s.intake.size

/-- What is carried to the next step is finite. -/
def isFinite (s : CellState) : Bool := Vec.isFinite s.hidden && Vec.isFinite s.cell

/-- What is saved of the state. -/
def toRecord (s : CellState) : StateRecord := ⟨s.hidden, s.cell, s.steps⟩

/-- The state with what was saved put back, if it is of the right size. -/
def restore (s : CellState) (r : StateRecord) : Outcome CellState := do
  expectSize "state restore" s.hidden.size r.hidden.size
  expectSize "state restore" s.cell.size r.cell.size
  return { s.reset with hidden := r.hidden, cell := r.cell, steps := r.steps }

end CellState

end NpcMind
