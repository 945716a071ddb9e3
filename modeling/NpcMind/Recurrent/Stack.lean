import NpcMind.Config.Basic
import NpcMind.Recurrent.Pools

/-!
# Stacks of recurrent layers

Each layer takes in what the one before it gives out. The flat order of parameters goes through the
layers one after the other.
-/

namespace NpcMind

/-- The parameters of a stack of layers. -/
structure Stack where
  inputSize : Nat
  layers : List Cell

namespace Stack

/-- The initial layers for the given widths, from a layer number on. -/
def layersFrom (c : Config.Controller) : Nat → Nat → List Nat → Outcome (List Cell)
  | _, _, [] => .ok []
  | inputSize, number, hiddenSize :: rest => do
    let seed := Sampler.mix c.initSeed (UInt64.ofNat number)
    let cell ← Cell.allocate inputSize hiddenSize seed c.forgetBias
    return cell :: (← layersFrom c hiddenSize (number + 1) rest)

/-- The initial stack of a configuration. -/
def ofConfig (inputSize : Nat) (c : Config.Controller) : Outcome Stack := do
  if c.hiddenSizes.isEmpty || c.hiddenSizes.contains 0 then
    throw (.config "controller layers must be non-empty")
  return ⟨inputSize, ← layersFrom c inputSize 0 c.hiddenSizes⟩

/-- The widths of the layers. -/
def hiddenSizes (s : Stack) : List Nat := s.layers.map Cell.hiddenSize

/-- The number of parameters of layers. -/
def countOf (layers : List Cell) : Nat := layers.foldr (fun c n => c.parameterCount + n) 0

/-- The number of parameters. -/
def parameterCount (s : Stack) : Nat := countOf s.layers

/-- The place of the last layer's first parameter. -/
def finalOffset (s : Stack) : Nat := countOf s.layers.dropLast

/-- The width of the last layer. -/
def finalSize (s : Stack) : Nat := (s.layers.getLast?.map Cell.hiddenSize).getD 0

/-- The number of values that the stack gives out. -/
def outputSize (s : Stack) : OutputMode → Nat
  | .finalLayer => s.finalSize
  | .allLayers => s.hiddenSizes.foldr (· + ·) 0

/-- The places of the first parameters of layers, if those of the first layer start at a place. -/
def offsetsFrom : Nat → List Cell → List Nat
  | _, [] => []
  | start, c :: rest => start :: offsetsFrom (start + c.parameterCount) rest

/-- The layer that a place of the flat order falls into, and the place within that layer. It is the last
layer that starts there or before. -/
def locate (layers : List Cell) (i : Nat) : Nat × Nat :=
  let offsets := offsetsFrom 0 layers
  let layer := (offsets.takeWhile (· ≤ i)).length - 1
  (layer, i - offsets.getD layer 0)

/-- The parameter at a place of the flat order. -/
def parameter? (s : Stack) (i : Nat) : Option Float32 :=
  let (layer, place) := locate s.layers i
  s.layers[layer]?.bind (·.parameter? place)

/-- The stack with something added to one parameter. -/
def addTo (s : Stack) (i : Nat) (delta : Float32) : Stack :=
  let { inputSize, layers } := s
  let (layer, place) := locate layers i
  { inputSize, layers := layers.modify layer fun c => c.addTo place delta }

/-- The parameters in the flat order. -/
def flatten (s : Stack) : Vec := s.layers.foldl (fun acc c => acc ++ c.flatten) #[]

/-- Layers with other parameters, given in the flat order. -/
def loadLayers : List Cell → Vec → Outcome (List Cell)
  | [], _ => .ok []
  | c :: rest, values => do
    let loaded ← c.load (values.extract 0 c.parameterCount)
    return loaded :: (← loadLayers rest (values.extract c.parameterCount values.size))

/-- The stack with other parameters, given in the flat order. -/
def load (s : Stack) (values : Vec) : Outcome Stack := do
  if values.size ≠ s.parameterCount then throw (.parameterCount s.parameterCount values.size)
  return { s with layers := ← loadLayers s.layers values }

/-- One step through layers. Gives how many values were repaired, what each layer gives out, and the
pools after it; layers in front of a failure have made their step. -/
def advance (b : Backend) (g : Guard) : List Cell → List (SlotPool CellState) → List Handle → Vec →
    Outcome (Nat × List Vec) × List (SlotPool CellState)
  | [], pools, _, _ => (.ok (0, []), pools)
  | c :: cells, pool :: pools, h :: handles, input =>
    match pool.get h >>= (c.step b g · input) with
    | .error e => (.error e, pool :: pools)
    | .ok (repairs, state) =>
      match advance b g cells pools handles state.hidden with
      | (.error e, pools) => (.error e, pool.set h state :: pools)
      | (.ok (more, outs), pools) =>
        (.ok (repairs + more, state.hidden :: outs), pool.set h state :: pools)
  | _ :: _, pools, _, _ => (.error .outOfBounds, pools)

/-- What a stack gives out for what its layers give out. -/
def readOut (mode : OutputMode) (outs : List Vec) : Vec :=
  match mode with
  | .finalLayer => outs.getLast?.getD #[]
  | .allLayers => outs.foldl (· ++ ·) #[]

/-- One step through the stack, giving out as many values as expected. -/
def forward (s : Stack) (b : Backend) (g : Guard) (pools : StatePools) (handles : List Handle)
    (input : Vec) (mode : OutputMode) (size : Nat) : Outcome (Nat × Vec) × StatePools :=
  let sizes := do
    expectSize "controller layers" s.layers.length handles.length
    expectSize "controller output" (s.outputSize mode) size
  match sizes with
  | .error e => (.error e, pools)
  | .ok _ =>
    match advance b g s.layers pools.layers handles input with
    | (.error e, layers) => (.error e, ⟨layers⟩)
    | (.ok (repairs, outs), layers) => (.ok (repairs, readOut mode outs), ⟨layers⟩)

/-- The derivatives of a loss by the parameters of the last layer, for its derivatives by what that layer
gave out last. -/
def finalGradient (s : Stack) (pools : StatePools) (handles : List Handle) (dHidden : Vec) :
    Outcome (List (Nat × Float32)) := do
  expectSize "controller layers" s.layers.length handles.length
  match s.layers.getLast?, handles.getLast? with
  | some c, some h =>
    let state ← pools.get (s.layers.length - 1) h
    return (c.gradient state dHidden).map fun (i, g) => (s.finalOffset + i, g)
  | _, _ => throw .outOfBounds

end Stack

end NpcMind
