/-!
# Documents

A document is the tree that a configuration or a saved mind is written as, whatever the text format.
A record keeps its fields in the order they were written, repeated names included; what a repeated
name means is decided where the record is decoded. A text may write a value in proper form that stands
for nothing, such as a number beyond every double; whoever does not look at that value need not mind.
-/

namespace NpcMind

/-- A tree of plain values. -/
inductive Document where
  | null
  | bool (value : Bool)
  | int (value : Int)
  | real (value : Float)
  | text (value : String)
  | list (items : List Document)
  | record (fields : List (String × Document))
  /-- A value that is well written but stands for nothing. It decodes to nothing. -/
  | unreadable
  deriving Inhabited

namespace Document

/-- The value of the last field of that name. -/
def field? (d : Document) (name : String) : Option Document :=
  match d with
  | .record fields => (fields.reverse.find? fun f => f.1 == name).map Prod.snd
  | _ => none

/-- The place of a list that a path segment names: decimal, without sign or leading zeros. -/
def position? (segment : String) : Option Nat :=
  if segment.toList.all Char.isDigit && (segment = "0" || !segment.startsWith "0") then
    segment.toNat?
  else none

/-- The value one step down. -/
def child? (d : Document) (segment : String) : Option Document :=
  match d with
  | .record _ => d.field? segment
  | .list items => do items[← position? segment]?
  | _ => none

/-- The value at the end of a path. -/
def get? : Document → List String → Option Document
  | d, [] => some d
  | d, segment :: path => do (← d.child? segment).get? path

/-- The document with another value one step down. -/
def setChild (d : Document) (segment : String) (value : Document) : Document :=
  match d with
  | .record fields => .record (fields.map fun f => if f.1 == segment then (f.1, value) else f)
  | .list items =>
    match position? segment with
    | some i => .list (items.set i value)
    | none => d
  | _ => d

/-- The document with the value at the end of a path changed; `none` if there is none or the change
does not apply. -/
def modify? (change : Document → Option Document) : Document → List String → Option Document
  | d, [] => change d
  | d, segment :: path => do
    let child ← d.child? segment
    return d.setChild segment (← modify? change child path)

/-- The record without a field that it has. -/
def erase? (d : Document) (name : String) : Option Document :=
  match d with
  | .record fields =>
    if fields.any (fun f => f.1 == name) then some (.record (fields.filter fun f => f.1 != name))
    else none
  | _ => none

/-- The list cut to at most `n` items. -/
def truncate? (n : Nat) : Document → Option Document
  | .list items => some (.list (items.take n))
  | _ => none

end Document

/-- The segments of a written path: each follows a slash, with `~1` for a slash and `~0` for a
tilde. The empty text is the whole document. -/
def Document.path? (pointer : String) : Option (List String) :=
  match pointer.splitOn "/" with
  | [""] => some []
  | "" :: segments => some (segments.map fun s => (s.replace "~1" "/").replace "~0" "~")
  | _ => none

end NpcMind
