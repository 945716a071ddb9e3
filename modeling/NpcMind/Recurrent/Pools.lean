import NpcMind.Recurrent.Cell
import NpcMind.SlotPool

/-!
# Pools of states

The states of all agents are held in one pool for each layer of the controller. An agent holds one
handle for each layer.
-/

namespace NpcMind

/-- One pool of states for each layer. -/
structure StatePools where
  layers : List (SlotPool CellState)

namespace StatePools

/-- Pools of the same capacity for a number of layers. -/
def ofCapacity (layerCount capacity : Nat) : StatePools :=
  ⟨List.replicate layerCount (SlotPool.ofCapacity "controller state pool" capacity)⟩

/-- The number of bytes of a slot for a state, apart from what it refers to. -/
def slotBytes : Nat := 256

/-- The number of bytes of a pool, apart from its slots. -/
def poolBytes : Nat := 64

/-- Pools of the same capacity for a number of layers, if they can be addressed. -/
def allocate (layerCount capacity : Nat) : Outcome StatePools := do
  requireRoom layerCount poolBytes
  if layerCount = 0 then return ⟨[]⟩
  requireRoom capacity slotBytes
  return .ofCapacity layerCount capacity

/-- The number of layers. -/
def layerCount (p : StatePools) : Nat := p.layers.length

/-- How many agents there is room for. -/
def capacity (p : StatePools) : Nat := (p.layers.head?.map SlotPool.capacity).getD 0

/-- How many agents hold states. -/
def inUse (p : StatePools) : Nat := (p.layers.head?.map SlotPool.size).getD 0

/-- Give back the states of handles; stale ones are passed over. -/
def releaseAll : List (SlotPool CellState) → List Handle → List (SlotPool CellState)
  | pool :: pools, h :: handles =>
    (match pool.remove h with
      | .ok (_, pool) => pool
      | .error _ => pool) :: releaseAll pools handles
  | pools, _ => pools

/-- Give back the states of handles; stale ones are passed over. -/
def release (p : StatePools) (handles : List Handle) : StatePools := ⟨releaseAll p.layers handles⟩

/-- Draw a state for one layer, charging it to a budget. -/
def draw (pool : SlotPool CellState) (c : Cell) (b : Budget) :
    Outcome (Handle × SlotPool CellState) × Budget :=
  match CellState.charge b c.inputSize c.hiddenSize with
  | (.error e, b) => (.error e, b)
  | (.ok _, b) => (pool.insert (.initial c.inputSize c.hiddenSize), b)

/-- Draw a state for each layer, or for none. -/
def drawAll : List (SlotPool CellState) → List Cell → Budget →
    Outcome (List Handle) × List (SlotPool CellState) × Budget
  | pool :: pools, c :: cells, b =>
    match draw pool c b with
    | (.error e, b) => (.error e, pool :: pools, b)
    | (.ok (h, drawn), b) =>
      match drawAll pools cells b with
      | (.ok handles, pools, b) => (.ok (h :: handles), drawn :: pools, b)
      | (.error e, pools, b) => (.error e, releaseAll (drawn :: pools) [h], b)
  | pools, _, b => (.ok [], pools, b)

/-- Draw a state for each of the given layers, or for none. What was charged up to a failure stays
charged. -/
def acquire (p : StatePools) (cells : List Cell) (b : Budget) :
    Outcome (List Handle) × StatePools × Budget :=
  match expectSize "state pools" p.layers.length cells.length with
  | .error e => (.error e, p, b)
  | .ok _ =>
    match drawAll p.layers cells b with
    | (out, layers, b) => (out, ⟨layers⟩, b)

/-- The state of one layer. -/
def get (p : StatePools) (layer : Nat) (h : Handle) : Outcome CellState :=
  match p.layers[layer]? with
  | some pool => pool.get h
  | none => .error .outOfBounds

/-- Change the states of handles one by one, up to the first failure. -/
def changeAll {α : Type} (change : CellState → α → Outcome CellState) :
    List (SlotPool CellState) → List (Handle × α) → Outcome Unit × List (SlotPool CellState)
  | pool :: pools, (h, a) :: rest =>
    match pool.get h >>= (change · a) with
    | .error e => (.error e, pool :: pools)
    | .ok s =>
      match changeAll change pools rest with
      | (out, pools) => (out, pool.set h s :: pools)
  | pools, _ => (.ok (), pools)

/-- The states before their first step. -/
def reset (p : StatePools) (handles : List Handle) : Outcome Unit × StatePools :=
  match changeAll (fun s _ => .ok s.reset) p.layers (handles.map (·, ())) with
  | (out, layers) => (out, ⟨layers⟩)

/-- Put saved states back, up to the first that does not fit. -/
def restore (p : StatePools) (handles : List Handle) (records : List StateRecord) :
    Outcome Unit × StatePools :=
  match expectSize "state records" handles.length records.length with
  | .error e => (.error e, p)
  | .ok _ =>
    match changeAll CellState.restore p.layers (handles.zip records) with
    | (out, layers) => (out, ⟨layers⟩)

/-- The states are there and finite. -/
def isFinite (p : StatePools) (handles : List Handle) : Bool :=
  (p.layers.zip handles).all fun (pool, h) => ((pool.get? h).map CellState.isFinite).getD false

/-- What is saved of the states. -/
def records (p : StatePools) (handles : List Handle) : Outcome (List StateRecord) :=
  (p.layers.zip handles).mapM fun (pool, h) => do return (← pool.get h).toRecord

end StatePools

end NpcMind
