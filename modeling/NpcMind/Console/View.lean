import NpcMind.Document.Codec
import NpcMind.Document.Json.Printer
import NpcMind.Single

/-!
# Views

How values are shown to someone who watches a society. Other than in a saved document every number is
shown: one that is not finite as a word, and a 64-bit word as its digits. Zeros are shown without their
sign, also those of a saved document.
-/

namespace NpcMind

/-- How values of a type are shown. -/
class View (α : Type) where
  view : α → Document

export View (view)

namespace View

instance : View Document := ⟨id⟩
instance : View Bool := ⟨.bool⟩
instance : View Nat := ⟨fun n => .int n⟩
instance : View Int := ⟨.int⟩
instance : View String := ⟨.text⟩
instance : View Int64 := ⟨fun n => .int n.toInt⟩
instance : View UInt64 := ⟨fun n => .text (toString n)⟩

instance : View Float32 where
  view x :=
    if x.isNaN then .text "NaN"
    else if x.isInf then .text (if x < 0 then "-inf" else "inf")
    else .real (Decimal.ofSingle x).nearest

instance {α : Type} [View α] : View (List α) := ⟨fun xs => .list (xs.map view)⟩
instance {α : Type} [View α] : View (Array α) := ⟨fun xs => .list (xs.toList.map view)⟩
instance {α : Type} [View α] : View (Option α) := ⟨fun x => (x.map view).getD .null⟩
instance {α β : Type} [View α] [View β] : View (α × β) := ⟨fun p => .list [view p.1, view p.2]⟩

/-- The non-zero entries of a vector with their places. -/
def sparse (xs : Vec) : Document :=
  view (xs.toList.zipIdx.filterMap fun (x, i) => if x == 0 then none else some (i, x))

/-- A text and its length in bytes. -/
def speech (line : String) : Document :=
  .record [("speech", view line), ("bytes", view line.utf8ByteSize)]

/-- A double as it is shown. -/
def number (x : Float) : String := Json.number (if x == 0 then 0 else x)

end View

/-- A document as it is shown. -/
def Document.toAnswer (d : Document) : String := Json.write View.number "" d

end NpcMind
