import NpcMind.Document.Codec
import NpcMind.Error

/-!
# Links in the order of writing

Every slot knows the slot written just before it and the one written just after it. Writing a slot again
cuts its links and puts it behind the last write.
-/

namespace NpcMind

/-- Which way to follow the order of writing. -/
inductive Direction where
  /-- To the slot written next. -/
  | forward
  /-- To the slot written before. -/
  | backward
  deriving DecidableEq, Repr

namespace Direction

/-- The name of a direction. -/
def name : Direction → String
  | .forward => "forward"
  | .backward => "backward"

instance : Named Direction := ⟨[.forward, .backward], name⟩

instance : Codec Direction := Named.codec

end Direction

/-- The links between the slots of a memory. -/
structure Links where
  next : Array (Option Nat)
  prev : Array (Option Nat)
  /-- The slot written last. -/
  last : Option Nat := none
  deriving DecidableEq, Repr

namespace Links

/-- No links yet. -/
def ofSize (slots : Nat) : Links := ⟨Array.replicate slots none, Array.replicate slots none, none⟩

/-- No links yet, if those of all slots can be addressed. -/
def allocate (slots : Nat) : Outcome Links := do
  requireRoom slots 16
  return .ofSize slots

/-- The slot that a link leads to. -/
def follow (l : Links) (slot : Nat) (d : Direction) : Option Nat :=
  match d with
  | .forward => (l.next[slot]?).join
  | .backward => (l.prev[slot]?).join

/-- The link of a slot, which has to be there. -/
def look (links : Array (Option Nat)) (slot : Nat) : Outcome (Option Nat) :=
  match links[slot]? with
  | some link => .ok link
  | none => .error .outOfBounds

/-- The links with another one at a slot, which has to be there. -/
def link (links : Array (Option Nat)) (slot : Nat) (target : Option Nat) : Outcome (Array (Option Nat)) :=
  if slot < links.size then .ok (links.setIfInBounds slot target) else .error .outOfBounds

/-- Cut what leads from a slot back and from there on to it. -/
def cutBefore (l : Links) (slot : Nat) : Outcome Links := do
  match ← look l.prev slot with
  | none => return l
  | some before => return { l with prev := ← link l.prev slot none, next := ← link l.next before none }

/-- Cut what leads from a slot on and from there back to it. -/
def cutAfter (l : Links) (slot : Nat) : Outcome Links := do
  match ← look l.next slot with
  | none => return l
  | some after => return { l with next := ← link l.next slot none, prev := ← link l.prev after none }

/-- Put a slot behind the one written last. -/
def append (l : Links) (slot : Nat) : Outcome Links := do
  match l.last with
  | none => return { l with last := some slot }
  | some last =>
    if last = slot then return l
    else
      return {
        next := ← link l.next last (some slot)
        prev := ← link l.prev slot (some last)
        last := some slot }

/-- The links after a slot was written. -/
def recordWrite (l : Links) (slot : Nat) : Outcome Links := do
  (← (← l.cutBefore slot).cutAfter slot).append slot

/-- The same slots without links. -/
def clear (l : Links) : Links := ⟨l.next.map fun _ => none, l.prev.map fun _ => none, none⟩

/-- The slots from one back to the oldest that it leads to, at most `n` of them. -/
def backFrom (l : Links) : Nat → Option Nat → Outcome (List Nat)
  | 0, _ => .ok []
  | _ + 1, none => .ok []
  | n + 1, some slot => do return slot :: (← backFrom l n (← look l.prev slot))

/-- The slots from the last write back to the oldest. -/
def recent (l : Links) : Outcome (List Nat) := l.backFrom l.prev.size l.last

/-- A link leads nowhere or to one of the slots. -/
def inRange (slots : Nat) : Option Nat → Bool
  | none => true
  | some slot => slot < slots

/-- Refuse links that do not fit a number of slots. -/
def validate (l : Links) (slots : Nat) : Outcome Unit := do
  expectSize "temporal links" slots l.next.size
  expectSize "temporal links" slots l.prev.size
  if l.next.all (inRange slots) && l.prev.all (inRange slots) && inRange slots l.last then return ()
  else throw (.config ("temporal link points past " ++ toString slots ++ " memory slots"))

instance : Codec Links where
  encode l := .record [
    ("next", Codec.encode l.next),
    ("prev", Codec.encode l.prev),
    ("last", Codec.encode l.last)]
  decode? d := do
    let r ← d.entries? ["next", "prev", "last"]
    return { next := ← r.get "next", prev := ← r.get "prev", last := ← r.get "last" }

end Links

end NpcMind
