import NpcMind.Document.Basic

/-!
# Tables under construction

A TOML text names its tables piece by piece. While it is read, each table remembers how it came about:
by a header of its own, only as part of a longer header, or through dotted keys. That decides whether a
later line may still add to it.
-/

namespace NpcMind.Toml

/-- What a key stands for. -/
inductive Node where
  /-- A value, with nothing to be added to it. -/
  | value (d : Document)
  /-- A table: not yet given by a header of its own, given by dotted keys, and its entries. -/
  | table (implicit dotted : Bool) (entries : List (String × Node))
  /-- A list of tables, each given by a header. -/
  | tables (items : List (List (String × Node)))

/-- A table with how it came about. -/
structure Table where
  implicit : Bool := false
  dotted : Bool := false
  entries : List (String × Node) := []

namespace Table

/-- What a key stands for in a table. -/
def find? (t : Table) (key : String) : Option Node :=
  (t.entries.find? fun e => e.1 == key).map Prod.snd

/-- The table with another meaning of a key. -/
def put (t : Table) (key : String) (n : Node) : Table :=
  if (t.find? key).isSome then
    { t with entries := t.entries.map fun e => if e.1 == key then (key, n) else e }
  else { t with entries := t.entries ++ [(key, n)] }

/-- The table without a key. -/
def erase (t : Table) (key : String) : Table :=
  { t with entries := t.entries.filter fun e => e.1 != key }

/-- Change the table at the end of a path, making the tables on the way that are not there. Dotted keys
do not enter a table that has a header. -/
def alter (dotted : Bool) (change : Table → Option Table) : List String → Table → Option Table
  | [], t => change t
  | key :: path, t =>
    match t.find? key with
    | none => do
      let child ← alter dotted change path { implicit := true, dotted }
      return t.put key (.table child.implicit child.dotted child.entries)
    | some (.value _) => none
    | some (.tables items) => do
      let child ← alter dotted change path { entries := items.getLast?.getD [] }
      return t.put key (.tables (items.dropLast ++ [child.entries]))
    | some (.table childImplicit childDotted entries) =>
      if dotted && !childImplicit then none
      else do
        let child ← alter dotted change path ⟨childImplicit, childDotted, entries⟩
        return t.put key (.table child.implicit child.dotted child.entries)

/-- Add a value under a key, dotted by a path. A key is given once, and a table is filled either by
dotted keys or under its header. -/
def insert (t : Table) (path : List String) (key : String) (d : Document) : Option Table :=
  alter true
    (fun t =>
      if t.dotted = path.isEmpty then none
      else if (t.find? key).isSome then none
      else some (t.put key (.value d)))
    path t

end Table

mutual

/-- What a key stands for, as a document. -/
def Node.toDocument : Node → Document
  | .value d => d
  | .table _ _ entries => .record (fieldsOf entries)
  | .tables items => .list (itemsOf items)

/-- The entries of a table as fields. -/
def fieldsOf : List (String × Node) → List (String × Document)
  | [] => []
  | (key, n) :: rest => (key, n.toDocument) :: fieldsOf rest

/-- Tables as items of a list. -/
def itemsOf : List (List (String × Node)) → List Document
  | [] => []
  | entries :: rest => .record (fieldsOf entries) :: itemsOf rest

end

/-- A table as a document. -/
def Table.toDocument (t : Table) : Document := .record (fieldsOf t.entries)

/-- A text read up to some line: the tables finished so far, and the one that lines now add to. -/
structure Progress where
  root : Table := {}
  current : Table := {}
  /-- The header of the current table; empty before the first one. -/
  path : List String := []
  /-- The current table is an item of a list of tables. -/
  isItem : Bool := false

namespace Progress

/-- Put the current table in its place. -/
def close (p : Progress) : Option Table :=
  match p.path.getLast? with
  | none => some p.current
  | some key =>
    Table.alter false
      (fun t =>
        if p.isItem then
          match t.find? key with
          | none => some (t.put key (.tables [p.current.entries]))
          | some (.tables items) => some (t.put key (.tables (items ++ [p.current.entries])))
          | some _ => none
        else some (t.put key (.table p.current.implicit p.current.dotted p.current.entries)))
      p.path.dropLast p.root

/-- Go on with the table of a header. -/
def openTable (p : Progress) (path : List String) : Option Progress := do
  let root ← p.close
  let key ← path.getLast?
  let (root, entries) ← pick root key
  return { root, current := { entries }, path, isItem := false }
where
  /-- Take the entries out that the table has already, if it may still get a header. -/
  pick (root : Table) (key : String) : Option (Table × List (String × Node)) := do
    let found ← lookUp root path.dropLast
    match found.find? key with
    | none => return (← Table.alter false some path.dropLast root, [])
    | some (.table true false entries) =>
      return (← Table.alter false (fun t => some (t.erase key)) path.dropLast root, entries)
    | some _ => none
  /-- The table at the end of a path, empty if it is not there. -/
  lookUp : Table → List String → Option Table
    | t, [] => some t
    | t, key :: path =>
      match t.find? key with
      | none => some {}
      | some (.value _) => none
      | some (.tables items) => lookUp { entries := items.getLast?.getD [] } path
      | some (.table childImplicit childDotted entries) =>
        lookUp ⟨childImplicit, childDotted, entries⟩ path

/-- Go on with a new item of a list of tables. -/
def openItem (p : Progress) (path : List String) : Option Progress := do
  let root ← p.close
  let key ← path.getLast?
  let root ← Table.alter false
    (fun t =>
      match t.find? key with
      | none => some t
      | some (.tables _) => some t
      | some _ => none)
    path.dropLast root
  return { root, current := {}, path, isItem := true }

end Progress

end NpcMind.Toml
