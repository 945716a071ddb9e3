import NpcMind.Document.Codec
import NpcMind.Error

/-!
# Fisher tables

How much each parameter matters, for those that matter at all. The entries are in ascending order of the
parameters' places, each place once.
-/

namespace NpcMind

namespace Sparse

variable {α : Type}

/-- Ascending entries with another value at a place. -/
def insert (place : Nat) (value : α) : List (Nat × α) → List (Nat × α)
  | [] => [(place, value)]
  | e :: rest =>
    if e.1 < place then e :: insert place value rest
    else if e.1 = place then (place, value) :: rest
    else (place, value) :: e :: rest

/-- The number under which a place is kept, 32 bits of it. -/
def key (place : Nat) : Nat := place % UInt32.size

/-- The value at a place. -/
def find? (place : Nat) (entries : List (Nat × α)) : Option α :=
  (entries.find? fun e => e.1 == place).map Prod.snd

/-- Sorted entries without those that are followed by another one for the same place. -/
def lastOfEach : List (Nat × α) → List (Nat × α)
  | [] => []
  | [e] => [e]
  | e :: f :: rest => if e.1 = f.1 then lastOfEach (f :: rest) else e :: lastOfEach (f :: rest)

/-- Entries in ascending order, the last one for each place. -/
def ofEntries (entries : List (Nat × α)) : List (Nat × α) :=
  lastOfEach (entries.mergeSort fun e f => e.1 ≤ f.1)

/-- A place as a record's field names it: decimal, in 32 bits. -/
def place? (name : String) : Option Nat := do
  let n ← Document.position? name
  if name ≠ "" ∧ n < UInt32.size then some n else none

/-- Entries as a record whose fields are the places. -/
def toDocument (entries : List (Nat × Float32)) : Document :=
  .record (entries.map fun (i, x) => (toString i, Codec.encode x))

/-- The entries that a record of places holds. -/
def ofDocument? : Document → Option (List (Nat × Float32))
  | .record fields => do
    let entries ← fields.mapM fun (name, d) => do return (← place? name, ← Codec.decode? d)
    return ofEntries entries
  | _ => none

end Sparse

/-- How much parameters matter. -/
structure FisherTable (α : Type) where
  parameterCount : Nat
  entries : List (Nat × α) := []

namespace FisherTable

variable {α : Type}

/-- The table with another entry. -/
def insert (t : FisherTable α) (i : Nat) (value : α) : Outcome (FisherTable α) :=
  if i < t.parameterCount then .ok { t with entries := Sparse.insert i value t.entries }
  else .error (.fisherIndex i t.parameterCount)

/-- The table with the given entries, the last one for each place. -/
def ofEntries (parameterCount : Nat) (entries : List (Nat × α)) : Outcome (FisherTable α) :=
  entries.foldlM (fun t (i, value) => t.insert i value) { parameterCount }

/-- The value of an entry. -/
def get? (t : FisherTable α) (i : Nat) : Option α := Sparse.find? i t.entries

/-- The number of entries. -/
def size (t : FisherTable α) : Nat := t.entries.length

/-- The share of parameters without an entry. -/
def sparsity (t : FisherTable α) : Float32 :=
  if t.parameterCount = 0 then 1 else 1 - t.size.toFloat32 / t.parameterCount.toFloat32

/-- Refuse a table that does not fit a number of parameters, or has an entry that no average of squares
can be. -/
def validate (t : FisherTable Float32) (parameterCount : Nat) : Outcome Unit := do
  if t.parameterCount ≠ parameterCount then throw (.parameterCount parameterCount t.parameterCount)
  if let some (i, _) := t.entries.getLast? then
    if parameterCount ≤ i then throw (.fisherIndex i parameterCount)
  if t.entries.any fun (_, x) => !x.isFinite || x < 0 then throw (.nonFinite "fisher table")

instance : Codec (FisherTable Float32) where
  encode t := .record [
    ("parameter_count", Codec.encode t.parameterCount),
    ("entries", Sparse.toDocument t.entries)]
  decode? d := do
    let r ← d.entries? ["parameter_count", "entries"]
    return {
      parameterCount := ← r.get "parameter_count"
      entries := ← Sparse.ofDocument? (← r.find? "entries") }

end FisherTable

end NpcMind
