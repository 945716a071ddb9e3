import NpcMind.Document.Codec

/-!
# Texts of bounded size

A line of speech and a remembered phrase have room for a fixed number of bytes. What does not fit is
dropped from the first character on that does not.
-/

namespace NpcMind

/-- The characters that fit into `room` bytes, up to the first that does not. -/
def fitting : Nat → List Char → List Char
  | _, [] => []
  | room, c :: rest => if c.utf8Size ≤ room then c :: fitting (room - c.utf8Size) rest else []

/-- A text of at most `capacity` bytes. -/
structure BoundedText (capacity : Nat) where
  text : String
  fits : text.utf8ByteSize ≤ capacity
  deriving DecidableEq

namespace BoundedText

variable {capacity : Nat}

/-- The empty text. -/
def empty : BoundedText capacity := ⟨"", by simp⟩

instance : Inhabited (BoundedText capacity) := ⟨empty⟩

/-- The text as it is, if it fits. -/
def ofText? (s : String) : Option (BoundedText capacity) :=
  if h : s.utf8ByteSize ≤ capacity then some ⟨s, h⟩ else none

theorem utf8ByteSize_fitting (room : Nat) (cs : List Char) :
    (String.ofList (fitting room cs)).utf8ByteSize ≤ room := by
  induction cs generalizing room with
  | nil => simp [fitting]
  | cons c rest ih =>
    unfold fitting
    split
    · have := ih (room - c.utf8Size)
      rw [String.ofList_cons, String.utf8ByteSize_append, String.utf8ByteSize_singleton]
      omega
    · simp

/-- The text followed by what fits of another. -/
def append (s : BoundedText capacity) (fragment : String) : BoundedText capacity :=
  ⟨s.text ++ String.ofList (fitting (capacity - s.text.utf8ByteSize) fragment.toList), by
    have := utf8ByteSize_fitting (capacity - s.text.utf8ByteSize) fragment.toList
    have := s.fits
    rw [String.utf8ByteSize_append]
    omega⟩

/-- What fits of a text. -/
def ofText (s : String) : BoundedText capacity := empty.append s

instance : Codec (BoundedText capacity) where
  encode s := .text s.text
  decode?
    | .text s => ofText? s
    | _ => none

end BoundedText

end NpcMind
