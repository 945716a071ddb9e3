import NpcMind.Decimal.Scaled
import NpcMind.Document.Basic

/-!
# Reading JSON

A number without fraction and exponent is an integer if it fits 64 bits, unsigned for positive and
signed for negative numbers; negative zero and every other number is a double. The leading digits that
fit 64 bits are kept, the digits after them only shift the exponent, and the kept digits are scaled in
double precision.

A strict reader refuses a number too large for a double, half a surrogate pair and nesting deeper than
127. A lenient reader takes any text of the right form: it leaves out what makes no sense, for whoever
reads the rest.
-/

namespace NpcMind.Json

/-- The characters that may stand between tokens. -/
def isBlank (c : Char) : Bool := c = ' ' || c = '\n' || c = '\t' || c = '\r'

/-- The text from the next token on. -/
def skipBlanks (cs : List Char) : List Char := cs.dropWhile isBlank

/-! ### Quoted texts -/

/-- The value of a hexadecimal digit. -/
def hexDigit? (c : Char) : Option Nat :=
  if '0' ≤ c ∧ c ≤ '9' then some (c.toNat - '0'.toNat)
  else if 'a' ≤ c ∧ c ≤ 'f' then some (c.toNat - 'a'.toNat + 10)
  else if 'A' ≤ c ∧ c ≤ 'F' then some (c.toNat - 'A'.toNat + 10)
  else none

/-- The value of hexadecimal digits. -/
def hexValue? (cs : List Char) : Option Nat :=
  cs.foldlM (fun n c => (hexDigit? c).map (n * 16 + ·)) 0

/-- The character that an escape letter stands for. -/
def escaped? (c : Char) : Option Char :=
  match c with
  | '"' => some '"'
  | '\\' => some '\\'
  | '/' => some '/'
  | 'b' => some '\x08'
  | 'f' => some '\x0c'
  | 'n' => some '\n'
  | 'r' => some '\r'
  | 't' => some '\t'
  | _ => none

/-- A text in quotes. -/
structure Quoted where
  /-- The text, unless half a surrogate pair is part of it. -/
  text? : Option String
  /-- The text was written without escapes. -/
  plain : Bool

/-- Part of a quoted text. -/
structure Draft where
  /-- The characters so far in reverse, unless half a surrogate pair stood alone among them. -/
  chars? : Option (List Char) := some []
  /-- The first half of a surrogate pair that may still be completed. -/
  half? : Option Nat := none
  /-- There were no escapes so far. -/
  plain : Bool := true

namespace Draft

/-- The characters, given that no second half follows. -/
def settled (d : Draft) : Option (List Char) := if d.half?.isSome then none else d.chars?

/-- The draft with another character. -/
def push (d : Draft) (c : Char) : Draft := { d with chars? := d.settled.map (c :: ·), half? := none }

/-- The draft with a unit of sixteen bits that does not complete a pair. -/
def pushFresh (d : Draft) (unit : Nat) : Draft :=
  if unit < 0xD800 ∨ 0xE000 ≤ unit then d.push (Char.ofNat unit)
  else if unit < 0xDC00 then { d with chars? := d.settled, half? := some unit }
  else { d with chars? := none, half? := none }

/-- The draft with a unit of sixteen bits. -/
def pushUnit (d : Draft) (unit : Nat) : Draft :=
  match d.half? with
  | none => d.pushFresh unit
  | some first =>
    if 0xDC00 ≤ unit ∧ unit < 0xE000 then
      { d with half? := none }.push (Char.ofNat (0x10000 + (first - 0xD800) * 0x400 + (unit - 0xDC00)))
    else d.pushFresh unit

/-- The text of a draft. -/
def toQuoted (d : Draft) : Quoted := ⟨d.settled.map fun cs => String.ofList cs.reverse, d.plain⟩

end Draft

/-- A quoted text, from what was read of it up to the closing quote. -/
def readQuoted (d : Draft) : List Char → Option (Quoted × List Char)
  | [] => none
  | '"' :: rest => some (d.toQuoted, rest)
  | '\\' :: 'u' :: a :: b :: c :: e :: rest =>
    match hexValue? [a, b, c, e] with
    | none => none
    | some unit => readQuoted ({ d with plain := false }.pushUnit unit) rest
  | '\\' :: letter :: rest =>
    match escaped? letter with
    | none => none
    | some c => readQuoted ({ d with plain := false }.push c) rest
  | c :: rest => if c.toNat < 0x20 then none else readQuoted (d.push c) rest

/-- The name that a quoted text gives to a field. A lenient reader does not take digits written as escapes
for a number, and tells them by a backslash in front. -/
def Quoted.name? (q : Quoted) (strict : Bool) : Option String :=
  q.text?.map fun s => if strict || q.plain || !s.all Char.isDigit then s else "\\" ++ s

/-! ### Numbers -/

/-- The value of a decimal digit. -/
def digitValue (c : Char) : Nat := c.toNat - '0'.toNat

/-- The value of decimal digits. -/
def digitsValue (cs : List Char) : Nat := cs.foldl (fun n c => n * 10 + digitValue c) 0

/-- The significand extended by the digits that fit 64 bits, and how many did. -/
def absorb (significand : Nat) : List Char → Nat × Nat
  | [] => (significand, 0)
  | c :: rest =>
    if significand * 10 + digitValue c < UInt64.size then
      let (s, n) := absorb (significand * 10 + digitValue c) rest
      (s, n + 1)
    else (significand, 0)

/-- The exponent of a number, if one is written. -/
def readExponent (cs : List Char) : Option (Option Int × List Char) :=
  match cs with
  | [] => some (none, [])
  | c :: rest =>
    if c = 'e' ∨ c = 'E' then
      let (negative, rest) :=
        match rest with
        | '-' :: r => (true, r)
        | '+' :: r => (false, r)
        | r => (false, r)
      let digits := rest.takeWhile Char.isDigit
      if digits.isEmpty then none
      else
        let size : Int := digitsValue digits
        some (some (if negative then -size else size), rest.dropWhile Char.isDigit)
    else some (none, cs)

/-- The fraction digits of a number, if it has a point. -/
def readFraction (cs : List Char) : Option (Option (List Char) × List Char) :=
  match cs with
  | '.' :: rest =>
    let digits := rest.takeWhile Char.isDigit
    if digits.isEmpty then none else some (some digits, rest.dropWhile Char.isDigit)
  | _ => some (none, cs)

/-- Whether a number is negative, and its digits. -/
def readSign (cs : List Char) : Bool × List Char :=
  match cs with
  | '-' :: rest => (true, rest)
  | _ => (false, cs)

/-- The number that is written in these parts; one too large for a double cannot be read. -/
def numberOf (negative : Bool) (whole : List Char) (fraction? : Option (List Char)) (exponent? : Option Int) :
    Document :=
  let n := digitsValue whole
  if fraction?.isNone ∧ exponent?.isNone ∧ ¬negative ∧ n < UInt64.size then .int n
  else if fraction?.isNone ∧ exponent?.isNone ∧ negative ∧ 0 < n ∧ n ≤ UInt64.size / 2 then .int (-n)
  else
    let (s, taken) := absorb 0 whole
    let (s, places) := absorb s (fraction?.getD [])
    let exponent : Int := (whole.length - taken : Nat) - places + exponent?.getD 0
    ((Decimal.mk negative s exponent).scaled.map .real).getD .unreadable

/-- A number. -/
def readNumber (cs : List Char) : Option (Document × List Char) := do
  let (negative, cs) := readSign cs
  let whole := cs.takeWhile Char.isDigit
  guard (whole.length = 1 ∨ (whole.head?.getD '0') ≠ '0')
  let (fraction?, rest) ← readFraction (cs.dropWhile Char.isDigit)
  let (exponent?, rest) ← readExponent rest
  return (numberOf negative whole fraction? exponent?, rest)

/-! ### Values -/

/-- A value that holds no other values. -/
def readScalar (cs : List Char) : Option (Document × List Char) :=
  match cs with
  | 'n' :: 'u' :: 'l' :: 'l' :: rest => some (.null, rest)
  | 't' :: 'r' :: 'u' :: 'e' :: rest => some (.bool true, rest)
  | 'f' :: 'a' :: 'l' :: 's' :: 'e' :: rest => some (.bool false, rest)
  | '"' :: rest => do
    let (q, rest) ← readQuoted {} rest
    return ((q.text?.map .text).getD .unreadable, rest)
  | _ => readNumber cs

/-- The name of a field, up to the value. -/
def readName (strict : Bool) (cs : List Char) : Option (Option String × List Char) := do
  let '"' :: rest := skipBlanks cs | none
  let (q, rest) ← readQuoted {} rest
  let ':' :: rest := skipBlanks rest | none
  return (q.name? strict, rest)

/-- A list or a record that is not closed yet, with what it holds so far in reverse. -/
inductive Frame where
  | items (before : List Document)
  /-- The name is that of the field whose value comes next. -/
  | fields (before : List (Option String × Document)) (name : Option String)

/-- The record of fields in reverse. A name that cannot be read spoils it. -/
def recordOf (fields : List (Option String × Document)) : Document :=
  match fields.reverse.mapM fun (name?, d) => name?.map (·, d) with
  | some fields => .record fields
  | none => .unreadable

/-- A strict reader takes no value that cannot be read. -/
def accepts (strict : Bool) : Document → Bool
  | .unreadable => !strict
  | _ => true

/-- A strict reader goes only so deep. -/
def admits (strict : Bool) (frames : List Frame) : Bool := !strict || frames.length < 127

/-- Read on within open lists and records, the innermost first: with the value that was just completed,
or with one to come. Every step but the last takes a character. -/
def readWithin (strict : Bool) : Nat → List Frame → Option Document → List Char →
    Option (Document × List Char)
  | 0, _, _, _ => none
  | fuel + 1, frames, none, cs =>
    match skipBlanks cs with
    | '[' :: rest =>
      if !admits strict frames then none
      else
        match skipBlanks rest with
        | ']' :: rest => readWithin strict fuel frames (some (.list [])) rest
        | rest => readWithin strict fuel (.items [] :: frames) none rest
    | '\x7b' :: rest =>
      if !admits strict frames then none
      else
        match skipBlanks rest with
        | '\x7d' :: rest => readWithin strict fuel frames (some (.record [])) rest
        | rest =>
          match readName strict rest with
          | none => none
          | some (name, rest) => readWithin strict fuel (.fields [] name :: frames) none rest
    | rest =>
      match readScalar rest with
      | none => none
      | some (d, rest) => if accepts strict d then readWithin strict fuel frames (some d) rest else none
  | _ + 1, [], some d, cs => some (d, cs)
  | fuel + 1, .items before :: frames, some d, cs =>
    match skipBlanks cs with
    | ',' :: rest => readWithin strict fuel (.items (d :: before) :: frames) none rest
    | ']' :: rest => readWithin strict fuel frames (some (.list (d :: before).reverse)) rest
    | _ => none
  | fuel + 1, .fields before name :: frames, some d, cs =>
    match skipBlanks cs with
    | ',' :: rest =>
      match readName strict rest with
      | none => none
      | some (next, rest) => readWithin strict fuel (.fields ((name, d) :: before) next :: frames) none rest
    | '\x7d' :: rest =>
      let r := recordOf ((name, d) :: before)
      if accepts strict r then readWithin strict fuel frames (some r) rest else none
    | _ => none

/-- The document that a whole text holds, with nothing but blanks around it. -/
def read (strict : Bool) (text : String) : Option Document :=
  let cs := text.toList
  match readWithin strict (cs.length + 1) [] none cs with
  | some (d, rest) => if (skipBlanks rest).isEmpty then some d else none
  | none => none

end NpcMind.Json

namespace NpcMind.Document

/-- The document that a text holds, every value of it. -/
def ofJson? (text : String) : Option Document := Json.read true text

/-- The document that a text holds, for whoever does not look at every value. -/
def ofLenientJson? (text : String) : Option Document := Json.read false text

end NpcMind.Document
