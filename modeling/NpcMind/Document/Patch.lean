import NpcMind.Document.Codec

/-!
# Patches

A patch edits a document in place: values are replaced, then lists are cut, then fields are removed.
Every edit names its place by a written path, and applies only if there is something at that place.
-/

namespace NpcMind

/-- Edits of a document. -/
structure Patch where
  /-- Values to be replaced. -/
  set : List (String × Document) := []
  /-- Lists to be cut to a length. -/
  truncate : List (String × Nat) := []
  /-- Fields to be removed. -/
  drop : List String := []

namespace Patch

/-- The last entry for each name, in ascending order of the names. -/
def ordered {α : Type} (entries : List (String × α)) : List (String × α) :=
  let sorted := entries.mergeSort fun e f => e.1 ≤ f.1
  (sorted.zipIdx.filter fun (e, i) => ((sorted[i + 1]?).map Prod.fst) ≠ some e.1).map Prod.fst

/-- The entries of a record that may be left out. -/
def fieldsOf? (d : Document) (name : String) : Option (List (String × Document)) :=
  match d.field? name with
  | none => some []
  | some (.record fields) => some (ordered fields)
  | some _ => none

/-- The patch that a document describes. -/
def ofDocument? (d : Document) : Option Patch := do
  let truncate ← (← fieldsOf? d "truncate").mapM fun (p, n) => do return (p, ← Codec.decode? n)
  let drop ← match d.field? "drop" with
    | none => some []
    | some names => Codec.decode? names
  return { set := ← fieldsOf? d "set", truncate, drop }

/-- The document with the value at a written path changed. -/
def edit? (change : Document → Option Document) (pointer : String) (d : Document) : Option Document := do
  d.modify? change (← Document.path? pointer)

/-- The document without the field at a written path. -/
def drop? (d : Document) (pointer : String) : Option Document := do
  let path ← Document.path? pointer
  d.modify? (fun parent => path.getLast? >>= parent.erase?) path.dropLast

/-- The document after all edits. -/
def applyTo? (p : Patch) (d : Document) : Option Document := do
  let d ← p.set.foldlM (fun d (pointer, value) => edit? (fun _ => some value) pointer d) d
  let d ← p.truncate.foldlM (fun d (pointer, n) => edit? (Document.truncate? n) pointer d) d
  p.drop.foldlM drop? d

end Patch

/-- The values at written paths; `absent` where there is none. -/
def Document.excerpt (d : Document) (pointers : List String) : List Document :=
  pointers.map fun p => (Document.path? p >>= d.get?).getD (.text "absent")

end NpcMind
