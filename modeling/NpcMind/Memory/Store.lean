import NpcMind.Budget
import NpcMind.Memory.Links
import NpcMind.Memory.Ranking

/-!
# Associative memory

A memory has a fixed number of slots. A write takes a free slot, or else the least used one, or, once all
are worn, the least important one. A read scores the occupied slots against a query and gives the best
match or a blend of the best ones. Writes are linked in their order, so that a match can be the start of
a walk through what came before and after.

The contents of the slots are the rows of a tensor. Where its size exceeds `2 ^ 64`, there is no buffer
for them; such a memory is still there, but nothing can be stored in it.
-/

namespace NpcMind

/-- A slot of a memory. -/
structure Trace where
  content : Vec
  usage : Float32 := 0
  importance : Float32 := 0
  occupied : Bool := false

/-- An associative memory. -/
structure Memory where
  config : Config.Memory
  slots : Array Trace
  links : Links
  writes : UInt64 := 0

/-- What a read found. -/
structure Recall where
  slot : Option Nat := none
  /-- The score of the best match, zero if there is none. -/
  score : Float32 := 0
  /-- How many slots were blended. -/
  heads : Nat := 0
  content : Vec

/-- Where a write went. -/
structure Stored where
  slot : Nat
  /-- The slot held something else. -/
  evicted : Bool
  deriving DecidableEq, Repr

/-- Figures about a memory. -/
structure MemoryAnalysis where
  capacity : Nat
  occupied : Nat
  averageUsage : Float32
  maxUsage : Float32
  averageImportance : Float32
  writes : UInt64

/-- What is saved of a memory. -/
structure MemoryRecord where
  slots : Nat
  width : Nat
  /-- The contents of the slots, one after the other. -/
  contents : Vec
  usage : Vec
  importance : Vec
  occupied : Array Bool
  links : Links
  writes : UInt64

namespace Memory

/-- There is a buffer for the contents of all slots. -/
def hasBuffer (slots width : Nat) : Bool :=
  width ≤ paddedStride width && slots * paddedStride width < UInt64.size

/-- An empty slot of a memory with that many slots. -/
def blank (slots width : Nat) : Trace :=
  { content := if hasBuffer slots width then Vec.zeros width else #[] }

/-- An empty memory. -/
def ofConfig (c : Config.Memory) : Outcome Memory := do
  requireRoom (wrap (c.slots * paddedStride c.width)) entryBytes
  requireRoom (paddedStride c.slots) entryBytes
  if c.readHeads > Config.maxReadHeads then
    throw (.config (toString c.readHeads ++ " read heads requested, at most " ++
      toString Config.maxReadHeads ++ " supported"))
  let links ← Links.allocate c.slots
  return { config := c, slots := Array.replicate c.slots (blank c.slots c.width), links }

/-- Charge a memory to a budget. -/
def charge (b : Budget) (c : Config.Memory) : Outcome Budget := do
  let b ← b.takeMatrix c.slots c.width
  let b ← b.takeVector c.slots
  b.takeVector c.slots

/-- The number of slots. -/
def capacity (m : Memory) : Nat := m.slots.size

/-- The length of what a slot holds. -/
def width (m : Memory) : Nat := m.config.width

/-- The number of occupied slots. -/
def occupied (m : Memory) : Nat := m.slots.countP Trace.occupied

/-- No slot is occupied. -/
def isEmpty (m : Memory) : Bool := !m.slots.any Trace.occupied

/-- How much each slot was used. -/
def usage (m : Memory) : Vec := m.slots.map Trace.usage

/-- How important each slot is. -/
def importance (m : Memory) : Vec := m.slots.map Trace.importance

/-- The contents of the slots have a buffer. -/
def isBacked (m : Memory) : Bool := m.slots.isEmpty || hasBuffer m.capacity m.width

/-- The contents of the slots as the rows of a tensor. -/
def contents (m : Memory) : Tensor Float32 where
  rows := m.capacity
  cols := m.width
  data := m.slots.foldl (fun data t => data ++ t.content ++ Vec.zeros (paddedStride m.width - m.width)) #[]

/-- What a slot holds. The number of a slot past the end may still lead to a place in the buffer, as its
address is a 64-bit word. -/
def content? (m : Memory) (slot : Nat) : Outcome Vec :=
  if !m.isBacked then .error .outOfBounds
  else
    match m.slots[slot]? with
    | some t => .ok t.content
    | none => m.contents.row? slot

/-- The first place of a list at which an order has no smaller element. -/
def leastBy (less : Trace → Trace → Bool) (slots : Array Trace) : Option (Nat × Trace) :=
  slots.toList.zipIdx.foldl
    (fun best (t, i) =>
      match best with
      | none => some (i, t)
      | some (j, u) => if less t u then some (i, t) else some (j, u))
    none

/-- Less used. -/
def lessUsed (t u : Trace) : Bool := Single.rank t.usage < Single.rank u.usage

/-- Less important, or as important and less used. -/
def lessImportant (t u : Trace) : Bool :=
  Single.rank t.importance < Single.rank u.importance ||
    (Single.rank t.importance == Single.rank u.importance && lessUsed t u)

/-- The slot that the next write takes. -/
def target? (m : Memory) : Option Nat :=
  match m.slots.findIdx? (!·.occupied) with
  | some free => some free
  | none =>
    match leastBy lessUsed m.slots with
    | none => none
    | some (slot, t) =>
      if t.usage < m.config.saturation then some slot
      else (leastBy lessImportant m.slots).map Prod.fst

/-- The strength of a write, between 0 and 1; zero if it is not finite. -/
def strengthOf (x : Float32) : Float32 := if x.isFinite then Single.unit x else 0

/-- Store a value with some strength; every other slot becomes less used. A memory without slots stores
nothing, and one without a buffer has no place to store it at. -/
def write (m : Memory) (value : Vec) (strength : Float32) : Outcome (Option Stored × Memory) := do
  expectSize "memory write" m.width value.size
  match m.target? with
  | none => return (none, m)
  | some slot =>
    if !m.isBacked then throw .outOfBounds
    let strength := strengthOf strength
    let evicted := ((m.slots[slot]?).map Trace.occupied).getD false
    let links ← m.links.recordWrite slot
    let slots := m.slots.mapIdx fun i t =>
      if i = slot then ⟨value.map (· * strength), 1, strength, true⟩
      else { t with usage := t.usage * m.config.usageDecay }
    return (some ⟨slot, evicted⟩, { m with slots, links, writes := m.writes + 1 })

/-- The occupied slots with their scores against a query. -/
def scores (m : Memory) (b : Backend) (query : Vec) : List (Nat × Float32) :=
  m.slots.toList.zipIdx.filterMap fun (t, i) =>
    if t.occupied then some (i, m.config.metric.score b query t.content) else none

/-- The contents of matches, blended by their shares. -/
def blend (m : Memory) (b : Backend) (found : List (Nat × Float32)) : Vec :=
  let shares := Ranking.shares (found.map Prod.snd).toArray m.config.sharpness
  (found.zip shares.toList).foldl
    (fun out ((slot, _), w) => Kernel.axpy b w (((m.slots[slot]?).map Trace.content).getD #[]) out)
    (Vec.zeros m.width)

/-- A read that finds nothing. -/
def nothing (m : Memory) : Recall := { content := Vec.zeros m.width }

/-- Where the contents have no buffer, an occupied slot has nothing to score. -/
def checkContents (m : Memory) : Outcome Unit :=
  if m.isBacked || m.isEmpty then .ok () else .error .outOfBounds

/-- Refuse a query or an expected answer of the wrong length. -/
def checkRead (m : Memory) (query : Vec) (size : Nat) : Outcome Unit := do
  expectSize "memory query" m.width query.size
  expectSize "memory read" m.width size

/-- The best match of a query, or a blend of the best ones. -/
def read (m : Memory) (b : Backend) (query : Vec) (size : Nat) : Outcome Recall := do
  m.checkRead query size
  m.checkContents
  let found := (Ranking.ofMatches m.config.readHeads (m.scores b query)).entries
  match found with
  | [] => return m.nothing
  | (slot, score) :: rest =>
    let content ← if rest.isEmpty then m.content? slot else pure (m.blend b found)
    return { slot := some slot, score, heads := found.length, content }

/-- What was written just after or before the best match of a query. -/
def readLinked (m : Memory) (b : Backend) (query : Vec) (d : Direction) (size : Nat) : Outcome Recall := do
  m.checkRead query size
  if m.config.readHeads = 0 then return m.nothing
  m.checkContents
  match (Ranking.ofMatches 1 (m.scores b query)).best? with
  | none => return m.nothing
  | some (anchor, score) =>
    match m.links.follow anchor d with
    | none => return m.nothing
    | some slot => return { slot := some slot, score, heads := 1, content := ← m.content? slot }

/-- How much each slot would have in a blend of all of them; free slots have nothing. -/
def addressing (m : Memory) (b : Backend) (query : Vec) (size : Nat) : Outcome Vec := do
  expectSize "memory query" m.width query.size
  expectSize "memory weighting" m.capacity size
  m.checkContents
  let vacant := -Single.infinity
  let sharp := m.slots.map fun t =>
    if t.occupied then m.config.sharpness * m.config.metric.score b query t.content else vacant
  let top := Kernel.maximum sharp
  if top == vacant then return Vec.zeros size
  let powers := sharp.map fun s => if s == vacant then 0 else Single.exp (s - top)
  let total := Vec.total powers
  return powers.map (· / total)

/-- Figures about the memory. -/
def analyze (m : Memory) : MemoryAnalysis where
  capacity := m.capacity
  occupied := m.occupied
  averageUsage := if m.capacity > 0 then Vec.total m.usage / m.capacity.toFloat32 else 0
  maxUsage := m.usage.foldl Single.larger 0
  averageImportance :=
    if m.occupied > 0 then
      Vec.total ((m.slots.filter Trace.occupied).map Trace.importance) / m.occupied.toFloat32
    else 0
  writes := m.writes

/-- The memory with everything forgotten. -/
def clear (m : Memory) : Memory :=
  { config := m.config
    slots := Array.replicate m.capacity (blank m.capacity m.width)
    links := m.links.clear }

/-- What is saved of the memory. -/
def toRecord (m : Memory) : MemoryRecord where
  slots := m.capacity
  width := m.width
  contents := m.slots.foldl (fun acc t => acc ++ t.content) #[]
  usage := m.usage
  importance := m.importance
  occupied := m.slots.map Trace.occupied
  links := m.links
  writes := m.writes

/-- What is saved of the memory, if its contents have a buffer. -/
def record (m : Memory) : Outcome MemoryRecord :=
  if m.isBacked then .ok m.toRecord else .error .outOfBounds

/-- The memory with what was saved put back, if it is of the same shape. -/
def restore (m : Memory) (r : MemoryRecord) : Outcome Memory := do
  expectSize "memory slots" m.capacity r.slots
  expectSize "memory width" m.width r.width
  expectSize "memory contents" (wrap (m.capacity * m.width)) r.contents.size
  expectSize "memory usage" m.capacity r.usage.size
  expectSize "memory importance" m.capacity r.importance.size
  expectSize "memory occupancy" m.capacity r.occupied.size
  r.links.validate m.capacity
  return {
    config := m.config
    slots := (Array.range m.capacity).map fun i => {
      content := r.contents.extract (i * m.width) ((i + 1) * m.width)
      usage := r.usage.getD i 0
      importance := r.importance.getD i 0
      occupied := r.occupied.getD i false }
    links := r.links
    writes := r.writes }

end Memory

instance : Codec MemoryAnalysis where
  encode a := .record [
    ("capacity", Codec.encode a.capacity),
    ("occupied", Codec.encode a.occupied),
    ("average_usage", Codec.encode a.averageUsage),
    ("max_usage", Codec.encode a.maxUsage),
    ("average_importance", Codec.encode a.averageImportance),
    ("writes", Codec.encode a.writes)]
  decode? d := do
    let r ← d.entries? ["capacity", "occupied", "average_usage", "max_usage", "average_importance",
      "writes"]
    return {
      capacity := ← r.get "capacity"
      occupied := ← r.get "occupied"
      averageUsage := ← r.get "average_usage"
      maxUsage := ← r.get "max_usage"
      averageImportance := ← r.get "average_importance"
      writes := ← r.get "writes" }

instance : Codec MemoryRecord where
  encode m := .record [
    ("slots", Codec.encode m.slots),
    ("width", Codec.encode m.width),
    ("contents", Codec.encode m.contents),
    ("usage", Codec.encode m.usage),
    ("importance", Codec.encode m.importance),
    ("occupied", Codec.encode m.occupied),
    ("links", Codec.encode m.links),
    ("writes", Codec.encode m.writes)]
  decode? d := do
    let r ← d.entries? ["slots", "width", "contents", "usage", "importance", "occupied", "links",
      "writes"]
    return {
      slots := ← r.get "slots"
      width := ← r.get "width"
      contents := ← r.get "contents"
      usage := ← r.get "usage"
      importance := ← r.get "importance"
      occupied := ← r.get "occupied"
      links := ← r.get "links"
      writes := ← r.get "writes" }

end NpcMind
