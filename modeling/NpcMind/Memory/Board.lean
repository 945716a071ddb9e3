import NpcMind.Memory.Store

/-!
# The gossip board

A memory that belongs to no agent. Agents read it while they think; what they have to tell is published
between ticks, if it is important enough.
-/

namespace NpcMind

/-- A memory shared by all agents. -/
structure Board where
  memory : Memory
  /-- The importance from which on an experience is stored. -/
  threshold : Float32
  published : UInt64 := 0
  rejected : UInt64 := 0

namespace Board

/-- An empty board. -/
def ofConfig (c : Config.Memory) (threshold : Float32) : Outcome Board := do
  return { memory := ← Memory.ofConfig c, threshold }

/-- The length of what the board holds. -/
def width (b : Board) : Nat := b.memory.width

/-- Offer an experience, and say whether it was stored. -/
def publish (b : Board) (value : Vec) (importance : Float32) : Outcome (Bool × Board) := do
  if importance < b.threshold then return (false, { b with rejected := b.rejected + 1 })
  match ← b.memory.write value importance with
  | (some _, memory) => return (true, { b with memory, published := b.published + 1 })
  | (none, memory) => return (false, { b with memory })

/-- The best match of a query, or a blend of the best ones. -/
def read (b : Board) (k : Backend) (query : Vec) (size : Nat) : Outcome Recall := b.memory.read k query size

/-- The board with everything forgotten. -/
def clear (b : Board) : Board := { memory := b.memory.clear, threshold := b.threshold }

/-- The board with what was saved put back; the writes of the record count as published. -/
def restore (b : Board) (r : MemoryRecord) : Outcome Board := do
  return { memory := ← b.memory.restore r, threshold := b.threshold, published := r.writes }

end Board

end NpcMind
