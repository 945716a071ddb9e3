import NpcMind.Document.Codec
import NpcMind.Error

/-!
# Slot pools

A pool has a fixed number of slots. A value put into it is reached through a handle, which names the
slot and its generation. Taking the value out moves the slot to its next generation, so older handles
are refused from then on.
-/

namespace NpcMind

/-- A reference to the value of a slot in one of its generations. -/
structure Handle where
  index : Nat
  generation : UInt32
  deriving DecidableEq, Repr, Inhabited

instance : Codec Handle where
  encode h := .record [("index", Codec.encode h.index), ("generation", Codec.encode h.generation)]
  decode? d := do
    let r ← d.entries? ["index", "generation"]
    let index : UInt32 ← r.get "index"
    return { index := index.toNat, generation := ← r.get "generation" }

/-- A place for a value. -/
structure Slot (α : Type) where
  generation : UInt32 := 0
  value : Option α := none
  deriving DecidableEq, Repr

/-- A pool with a fixed number of slots. -/
structure SlotPool (α : Type) where
  name : String
  slots : Array (Slot α)
  /-- The slots without a value, the next one to be used first. -/
  free : List Nat

namespace SlotPool

variable {α : Type}

/-- A pool whose slots are all free, to be used from the first on. -/
def ofCapacity (name : String) (capacity : Nat) : SlotPool α :=
  ⟨name, Array.replicate capacity {}, List.range capacity⟩

/-- A pool whose slots are all free, if they can be addressed with some bytes each. -/
def allocate (name : String) (slotBytes capacity : Nat) : Outcome (SlotPool α) := do
  requireRoom capacity slotBytes
  return .ofCapacity name capacity

/-- The number of slots. -/
def capacity (p : SlotPool α) : Nat := p.slots.size

/-- The number of slots with a value. -/
def size (p : SlotPool α) : Nat := p.slots.size - p.free.length

/-- No slot has a value. -/
def isEmpty (p : SlotPool α) : Bool := p.size = 0

/-- Every slot has a value. -/
def isFull (p : SlotPool α) : Bool := p.free.isEmpty

/-- The value that a handle is for. -/
def get? (p : SlotPool α) (h : Handle) : Option α := do
  let slot ← p.slots[h.index]?
  if slot.generation = h.generation then slot.value else none

/-- The value that a handle is for; stale handles are refused. -/
def get (p : SlotPool α) (h : Handle) : Outcome α :=
  match p.get? h with
  | some a => .ok a
  | none => .error (.staleHandle h.index)

/-- The handle is good. -/
def contains (p : SlotPool α) (h : Handle) : Bool := (p.get? h).isSome

/-- Put a value into the next free slot. -/
def insert (p : SlotPool α) (a : α) : Outcome (Handle × SlotPool α) :=
  match p.free with
  | [] => .error (.exhausted p.name p.capacity)
  | i :: free =>
    match p.slots[i]? with
    | none => .error .outOfBounds
    | some slot =>
      .ok (⟨i, slot.generation⟩,
        { p with slots := p.slots.setIfInBounds i { slot with value := some a }, free })

/-- Replace the value that a handle is for; nothing happens for a stale handle. -/
def set (p : SlotPool α) (h : Handle) (a : α) : SlotPool α :=
  if p.contains h then
    { p with slots := p.slots.modify h.index fun slot => { slot with value := some a } }
  else p

/-- Take out the value that a handle is for, and free its slot to be used next. -/
def remove (p : SlotPool α) (h : Handle) : Outcome (α × SlotPool α) :=
  match p.get? h with
  | none => .error (.staleHandle h.index)
  | some a =>
    .ok (a, { p with
      slots := p.slots.modify h.index fun slot => ⟨slot.generation + 1, none⟩
      free := h.index :: p.free })

/-- The values with their handles, in the order of the slots. -/
def entries (p : SlotPool α) : List (Handle × α) :=
  p.slots.toList.zipIdx.filterMap fun (slot, i) =>
    slot.value.map fun a => (⟨i, slot.generation⟩, a)

end SlotPool

end NpcMind
