import NpcMind.Guard
import NpcMind.Kernel.Elementwise
import NpcMind.Kernel.Product
import NpcMind.Recurrent.State
import NpcMind.Sampler

/-!
# Recurrent layers

The parameters of a gated layer with `I` inputs and `H` hidden values are a matrix of `4 H` rows and
`I + H` columns, its rows grouped by gate, and `4 H` biases. In the flat order of parameters the matrix
comes first, row by row, then the biases. As every size, `I + H` is a 64-bit word.
-/

namespace NpcMind

/-- The parameters of a layer. -/
structure Cell where
  inputSize : Nat
  hiddenSize : Nat
  weights : Tensor Float32
  bias : Vec

namespace Cell

/-- The length of what a step takes in. -/
def intakeSize (c : Cell) : Nat := wrap (c.inputSize + c.hiddenSize)

/-- The initial parameters that a seed stands for: weights even around zero, and a bias towards keeping
the cell. -/
def ofSeed (inputSize hiddenSize : Nat) (seed : UInt64) (forgetBias : Float32) : Cell :=
  let width := wrap (inputSize + hiddenSize)
  let limit := (6 / (max (wrap (width + hiddenSize)) 1).toFloat32).sqrt
  { inputSize
    hiddenSize
    weights := Tensor.ofFn (4 * hiddenSize) width fun r c =>
      (Sampler.mk seed (UInt64.ofNat (r * width + c))).nextSymmetric limit |>.1
    bias := Array.replicate hiddenSize forgetBias ++ Vec.zeros (3 * hiddenSize) }

/-- The initial parameters that a seed stands for, if they can be addressed. -/
def allocate (inputSize hiddenSize : Nat) (seed : UInt64) (forgetBias : Float32) : Outcome Cell := do
  let width := wrap (inputSize + hiddenSize)
  requireRoom (4 * hiddenSize * paddedStride width) entryBytes
  requireRoom (4 * hiddenSize) entryBytes
  if 0 < hiddenSize then requireWithin width (paddedStride width)
  return ofSeed inputSize hiddenSize seed forgetBias

/-- The number of weights. -/
def weightCount (c : Cell) : Nat := 4 * c.hiddenSize * c.intakeSize

/-- The number of parameters. -/
def parameterCount (c : Cell) : Nat := c.weightCount + 4 * c.hiddenSize

/-- The parameter at a place of the flat order. -/
def parameter? (c : Cell) (i : Nat) : Option Float32 :=
  if i < c.weightCount then some (c.weights.get (i / c.intakeSize) (i % c.intakeSize))
  else c.bias[i - c.weightCount]?

/-- The layer with something added to one parameter. -/
def addTo (c : Cell) (i : Nat) (delta : Float32) : Cell :=
  if i < c.weightCount then
    let r := i / c.intakeSize
    let col := i % c.intakeSize
    let { inputSize, hiddenSize, weights, bias } := c
    { inputSize, hiddenSize, bias, weights := weights.set r col (weights.get r col + delta) }
  else
    let place := i - c.weightCount
    let { inputSize, hiddenSize, weights, bias } := c
    { inputSize, hiddenSize, weights, bias := bias.modify place (· + delta) }

/-- The parameters in the flat order. -/
def flatten (c : Cell) : Vec := c.weights.rowList.foldl (· ++ ·) #[] ++ c.bias

/-- The layer with other parameters, given in the flat order. -/
def load (c : Cell) (values : Vec) : Outcome Cell :=
  if values.size ≠ c.parameterCount then .error (.parameterCount c.parameterCount values.size)
  else
    .ok { c with
      weights := Tensor.ofFn (4 * c.hiddenSize) c.intakeSize fun r col =>
        values.getD (r * c.intakeSize + col) 0
      bias := values.extract c.weightCount values.size }

/-- The gates for an intake. -/
def gates (c : Cell) (b : Backend) (intake : Vec) : Vec :=
  let sums := Kernel.add (Kernel.apply b c.weights intake) c.bias
  sums.mapIdx fun i x =>
    if 2 * c.hiddenSize ≤ i ∧ i < 3 * c.hiddenSize then Single.tanh x else Single.sigmoid x

/-- The state after one step on an input, and how many values the guard had to repair. -/
def step (c : Cell) (b : Backend) (g : Guard) (s : CellState) (input : Vec) :
    Outcome (Nat × CellState) := do
  expectSize "cell input" c.inputSize input.size
  let intake := input ++ s.hidden
  let gates := c.gates b intake
  let gate (k : Gate) (i : Nat) : Float32 := gates.getD (k.index * c.hiddenSize + i) 0
  let cell := (Array.range c.hiddenSize).map fun i =>
    gate .forget i * s.cell.getD i 0 + gate .input i * gate .candidate i
  let hidden := (Array.range c.hiddenSize).map fun i => gate .output i * Single.tanh (cell.getD i 0)
  let (cellRepairs, checkedCell) ← g.check "controller cell" cell
  let (hiddenRepairs, checkedHidden) ← g.check "controller hidden" hidden
  return (cellRepairs + hiddenRepairs, {
    hidden := checkedHidden
    cell := checkedCell
    previousCell := s.cell
    gates
    intake
    steps := s.steps + 1 })

/-- The derivatives of a loss by the sums in front of the four gates of a unit, for a derivative `dh` by
the unit's hidden value in the last step. -/
def gateDerivatives (s : CellState) (k : Nat) (dh : Float32) : List Float32 :=
  let unit (v : Vec) : Float32 := v.getD k 0
  let forget := unit (s.gate .forget)
  let input := unit (s.gate .input)
  let candidate := unit (s.gate .candidate)
  let output := unit (s.gate .output)
  let shown := Single.tanh (unit s.cell)
  let dc := dh * output * (1 - shown * shown)
  [dc * unit s.previousCell * forget * (1 - forget),
    dc * candidate * input * (1 - input),
    dc * input * (1 - candidate * candidate),
    dh * shown * output * (1 - output)]

/-- The derivatives by the parameters of one row, without those that are zero. -/
def rowGradient (c : Cell) (intake : Vec) (row : Nat) (g : Float32) : List (Nat × Float32) :=
  if g == 0 then []
  else
    (intake.toList.zipIdx.filterMap fun (x, col) =>
      if x != 0 then some (row * c.intakeSize + col, g * x) else none) ++ [(c.weightCount + row, g)]

/-- The derivatives of a loss by the parameters, for its derivatives by the hidden values of the last
step; what came before that step counts as constant. Derivatives that are zero are left out. -/
def gradient (c : Cell) (s : CellState) (dHidden : Vec) : List (Nat × Float32) :=
  (dHidden.toList.take c.hiddenSize).zipIdx.flatMap fun (dh, k) =>
    if dh == 0 then []
    else
      (gateDerivatives s k dh).zipIdx.flatMap fun (g, i) =>
        c.rowGradient s.intake (i * c.hiddenSize + k) g

end Cell

end NpcMind
