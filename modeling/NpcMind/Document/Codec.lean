import NpcMind.Decimal.Scaled
import NpcMind.Document.Basic
import NpcMind.Single

/-!
# Values as documents

`Codec α` says how a value is written as a document and read back. Records are read leniently and
strictly at once: unknown fields are passed over, a known field may not be repeated, and a record may
also be given as the plain list of its fields.
-/

namespace NpcMind

/-- How values of a type are written as documents and read back. -/
class Codec (α : Type) where
  encode : α → Document
  decode? : Document → Option α
  /-- The value of a record field that is not there, where one may be left out. -/
  absent? : Option α := none

namespace Codec

instance : Codec Bool where
  encode := .bool
  decode?
    | .bool b => some b
    | _ => none

instance : Codec String where
  encode := .text
  decode?
    | .text s => some s
    | _ => none

/-- An integer from `0` up to a bound that it stays below. -/
def natBelow? (bound : Nat) : Document → Option Nat
  | .int z => if 0 ≤ z ∧ z < bound then some z.toNat else none
  | _ => none

/-- Sizes and counts; documents hold them in 64 bits. -/
instance : Codec Nat where
  encode n := .int n
  decode? := natBelow? UInt64.size

instance : Codec UInt64 where
  encode n := .int n.toNat
  decode? d := (natBelow? UInt64.size d).map UInt64.ofNat

instance : Codec UInt32 where
  encode n := .int n.toNat
  decode? d := (natBelow? UInt32.size d).map UInt32.ofNat

/-- A single is written as its shortest decimal. A NaN or an infinity has none and is written as
`null`, which does not read back. -/
instance : Codec Float32 where
  encode x := if x.isFinite then ((Decimal.ofSingle x).scaled.map .real).getD .null else .null
  decode?
    | .int z => some (Float32.ofInt z)
    | .real x => some (Single.ofDouble x)
    | _ => none

instance {α : Type} [Codec α] : Codec (Option α) where
  encode
    | some a => encode a
    | none => .null
  decode?
    | .null => some none
    | d => (decode? d).map some
  absent? := some none

instance {α : Type} [Codec α] : Codec (List α) where
  encode xs := .list (xs.map encode)
  decode?
    | .list items => items.mapM decode?
    | _ => none

instance {α : Type} [Codec α] : Codec (Array α) where
  encode xs := .list (xs.toList.map encode)
  decode?
    | .list items => (items.mapM decode?).map List.toArray
    | _ => none

instance {α β : Type} [Codec α] [Codec β] : Codec (α × β) where
  encode p := .list [encode p.1, encode p.2]
  decode?
    | .list [a, b] => do return (← decode? a, ← decode? b)
    | _ => none

end Codec

/-- The known fields of a record, by name. -/
structure Entries where
  pairs : List (String × Document)

namespace Entries

/-- The document of a field. -/
def find? (e : Entries) (name : String) : Option Document :=
  (e.pairs.find? fun p => p.1 == name).map Prod.snd

/-- The value of a field, or what its absence stands for. -/
def get {α : Type} [Codec α] (e : Entries) (name : String) : Option α :=
  match e.find? name with
  | some d => Codec.decode? d
  | none => Codec.absent?

/-- The value of a field, or a default if it is not there. -/
def getD {α : Type} [Codec α] (e : Entries) (name : String) (default : α) : Option α :=
  match e.find? name with
  | some d => Codec.decode? d
  | none => some default

end Entries

/-- The fields `names` of a record. A list gives them in order, all of them. -/
def Document.entries? (names : List String) : Document → Option Entries
  | .record fields =>
    let known := fields.filter fun f => names.contains f.1
    if (known.map Prod.fst).Nodup then some ⟨known⟩ else none
  | .list items => if items.length = names.length then some ⟨names.zip items⟩ else none
  | _ => none

/-- The fields `names` of a record in which every field has a default. A list may stop early. -/
def Document.someEntries? (names : List String) : Document → Option Entries
  | .list items => if items.length ≤ names.length then some ⟨names.zip items⟩ else none
  | d => d.entries? names

/-- A type of finitely many named values. -/
class Named (α : Type) where
  all : List α
  name : α → String

namespace Named

/-- The value of that name. -/
def ofName? {α : Type} [Named α] (s : String) : Option α :=
  all.find? fun a => name a == s

/-- Named values are written as their names; a record with one empty field of that name reads the
same. -/
@[reducible] def codec {α : Type} [Named α] : Codec α where
  encode a := .text (name a)
  decode?
    | .text s => ofName? s
    | .record [(s, .null)] => ofName? s
    | _ => none

end Named

end NpcMind
