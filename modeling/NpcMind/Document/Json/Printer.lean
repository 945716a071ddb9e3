import NpcMind.Decimal.Shortest
import NpcMind.Document.Basic

/-!
# Writing JSON

The compact form, without blanks. What JSON cannot hold is written as `null`.
-/

namespace NpcMind.Json

/-- The two hexadecimal digits of a code below 256. -/
def hexPair (code : Nat) : String :=
  String.ofList [Nat.digitChar (code / 16), Nat.digitChar (code % 16)]

/-- A character inside a quoted text. -/
def escape (c : Char) : String :=
  if c = '"' then "\\\""
  else if c = '\\' then "\\\\"
  else if c.toNat < 0x20 then "\\u00" ++ hexPair c.toNat
  else c.toString

/-- A quoted text. -/
def quote (s : String) : String :=
  s.foldl (fun acc c => acc ++ escape c) "\"" ++ "\""

/-- A double, always with a point or an exponent. -/
def number (x : Float) : String :=
  if x.isFinite then (Decimal.ofDouble x).render else "null"

section

variable (form : Float → String)

mutual

/-- The text so far, followed by a document. Doubles are written in the given form. -/
def write (acc : String) : Document → String
  | .null => acc ++ "null"
  | .unreadable => acc ++ "null"
  | .bool b => acc ++ (if b then "true" else "false")
  | .int z => acc ++ toString z
  | .real x => acc ++ form x
  | .text s => acc ++ quote s
  | .list items => writeItems (acc ++ "[") items true ++ "]"
  | .record fields => writeFields (acc ++ "\x7b") fields true ++ "\x7d"

/-- The text so far, followed by the items of a list with commas between them. -/
def writeItems (acc : String) : List Document → Bool → String
  | [], _ => acc
  | d :: rest, first => writeItems (write (if first then acc else acc ++ ",") d) rest false

/-- The text so far, followed by the fields of a record with commas between them. -/
def writeFields (acc : String) : List (String × Document) → Bool → String
  | [], _ => acc
  | (name, d) :: rest, first =>
    writeFields (write ((if first then acc else acc ++ ",") ++ quote name ++ ":") d) rest false

end

end

end NpcMind.Json

/-- A document as compact JSON. -/
def NpcMind.Document.toJson (d : NpcMind.Document) : String := NpcMind.Json.write NpcMind.Json.number "" d
