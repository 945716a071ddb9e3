import NpcMind.Archetype
import NpcMind.SlotPool
import NpcMind.Tensor

/-!
# Arguments of requests

How a request gives the values of a call. Numbers may also be written as words: a single that no
document number can be as `NaN`, `inf` or `-inf`, and a 64-bit word in decimal digits, with or without
a plus.
-/

namespace NpcMind

/-- How values of a type are given in a request. -/
class Argument (α : Type) where
  read? : Document → Option α
  /-- The value would be larger than anything that can be held. -/
  exceeds : Document → Bool := fun _ => false

namespace Argument

/-- An argument that is given as the value is saved. -/
@[reducible] def coded {α : Type} [Codec α] : Argument α := { read? := Codec.decode? }

instance : Argument Document := { read? := some }
instance : Argument Bool := coded
instance : Argument String := coded
instance : Argument Nat := coded
instance : Argument Uuid := coded
instance : Argument Archetype := coded
instance : Argument Handle := coded

instance : Argument Int64 where
  read?
    | .int z => if Int64.minValue.toInt ≤ z ∧ z ≤ Int64.maxValue.toInt then some (Int64.ofInt z) else none
    | _ => none

instance : Argument UInt64 where
  read?
    | .text s => do
      let digits := match s.toList with
        | '+' :: rest => rest
        | cs => cs
      let n ← if digits ≠ [] ∧ digits.all Char.isDigit then (String.ofList digits).toNat? else none
      if n < UInt64.size then some (UInt64.ofNat n) else none
    | d => Codec.decode? d

instance : Argument Float32 where
  read?
    | .int z => some (Single.ofDouble (Float.ofInt z))
    | .real x => some (Single.ofDouble x)
    | .text "NaN" => some (0 / 0)
    | .text "inf" => some Single.infinity
    | .text "-inf" => some (-Single.infinity)
    | _ => none

instance {α : Type} [Argument α] : Argument (List α) where
  read?
    | .list xs => xs.mapM read?
    | _ => none

instance {α β : Type} [Argument α] [Argument β] : Argument (α × β) where
  read?
    | .list [a, b] => do return (← read? a, ← read? b)
    | _ => none

/-- A vector is a list, or a length with a value for all places and other values for some. -/
instance : Argument Vec where
  read?
    | .list xs => (xs.mapM read?).map List.toArray
    | d => do
      let n : Nat ← read? (← d.field? "len")
      let fill : Float32 ← read? ((d.field? "fill").getD (.int 0))
      let pairs : List (Nat × Float32) ← read? ((d.field? "set").getD (.list []))
      pairs.foldlM (fun v (i, x) => if i < v.size then some (v.setIfInBounds i x) else none)
        (Array.replicate n fill)
  exceeds d :=
    match d.field? "len" >>= (read? : Document → Option Nat) with
    | some n => !(requireRoom n entryBytes).isOk
    | none => false

end Argument

namespace Document

/-- The argument of that name. -/
def argument? {α : Type} [Argument α] (d : Document) (name : String) : Option α :=
  d.field? name >>= Argument.read?

/-- The argument of that name, or a default if it is left out. -/
def argumentD? {α : Type} [Argument α] (d : Document) (name : String) (default : α) : Option α :=
  match d.field? name with
  | none => some default
  | some x => Argument.read? x

end Document

end NpcMind
