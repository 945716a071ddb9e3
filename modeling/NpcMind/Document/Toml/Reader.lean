import NpcMind.Decimal.Scaled
import NpcMind.Document.Json.Reader
import NpcMind.Document.Toml.Table

/-!
# Reading TOML

Version 1.0 of the format. Integers are 64-bit and signed. A date or a time is read as a record with
its text as the only field. Keys have fewer than 80 parts, and values are nested less than 80 deep.
-/

namespace NpcMind.Toml

open Json (hexDigit? hexValue? digitsValue)

/-- The text after blanks within a line. -/
def skipSpaces (cs : List Char) : List Char := cs.dropWhile fun c => c = ' ' || c = '\t'

/-- A character that may stand in a comment or a literal text. -/
def isPlain (c : Char) : Bool := c = '\t' || (0x20 ≤ c.toNat && c.toNat ≠ 0x7F)

/-- The text after a line break. -/
def newline? : List Char → Option (List Char)
  | '\n' :: rest => some rest
  | '\r' :: '\n' :: rest => some rest
  | _ => none

/-- The text after a comment, if there is one. -/
def skipComment (cs : List Char) : List Char :=
  match cs with
  | '#' :: rest => rest.dropWhile isPlain
  | _ => cs

/-- The text after the end of a line; only blanks and a comment may come before it. -/
def endLine? (cs : List Char) : Option (List Char) :=
  match skipComment (skipSpaces cs) with
  | [] => some []
  | rest => newline? rest

/-- The text after blanks and line breaks, and comments where they are allowed; it starts within a comment
or not. -/
def skipBreaks (comments inside : Bool) : List Char → List Char
  | [] => []
  | '\r' :: '\n' :: rest => skipBreaks comments false rest
  | c :: rest =>
    if c = '\n' then skipBreaks comments false rest
    else if inside then
      if isPlain c then skipBreaks comments true rest else c :: rest
    else if c = ' ' || c = '\t' then skipBreaks comments false rest
    else if comments && c = '#' then skipBreaks comments true rest
    else c :: rest

/-- The text after blanks, comments and line breaks. -/
def skipLines (cs : List Char) : List Char := skipBreaks true false cs

/-- The character with a code, if there is one. -/
def scalar? (code : Nat) : Option Char :=
  if code < 0xD800 ∨ (0xE000 ≤ code ∧ code < 0x110000) then some (Char.ofNat code) else none

/-- A character written by its code in `n` digits. -/
def readCode (n : Nat) (cs : List Char) : Option (Char × List Char) := do
  let digits := cs.take n
  guard (digits.length = n)
  return (← scalar? (← hexValue? digits), cs.drop n)

/-- An escaped character, after the backslash. -/
def readEscape (cs : List Char) : Option (Char × List Char) :=
  match cs with
  | 'b' :: rest => some ('\x08', rest)
  | 't' :: rest => some ('\t', rest)
  | 'n' :: rest => some ('\n', rest)
  | 'f' :: rest => some ('\x0c', rest)
  | 'r' :: rest => some ('\r', rest)
  | '"' :: rest => some ('"', rest)
  | '\\' :: rest => some ('\\', rest)
  | 'u' :: rest => readCode 4 rest
  | 'U' :: rest => readCode 8 rest
  | _ => none

/-- The rest of a text in double quotes. -/
def readBasic : Nat → List Char → List Char → Option (String × List Char)
  | 0, _, _ => none
  | fuel + 1, acc, cs =>
    match cs with
    | [] => none
    | '"' :: rest => some (String.ofList acc.reverse, rest)
    | '\\' :: rest => do
      let (c, rest) ← readEscape rest
      readBasic fuel (c :: acc) rest
    | c :: rest => if isPlain c then readBasic fuel (c :: acc) rest else none

/-- The rest of a text in single quotes. -/
def readLiteral (cs : List Char) : Option (String × List Char) :=
  let body := cs.takeWhile fun c => isPlain c && c ≠ '\x27'
  match cs.drop body.length with
  | '\x27' :: rest => some (String.ofList body, rest)
  | _ => none

/-- The number of quotes at the start of a text, at most five. -/
def quoteRun (quote : Char) (cs : List Char) : Nat := ((cs.take 5).takeWhile (· = quote)).length

/-- The text after a backslash at the end of a line: blanks and line breaks are passed over. -/
def continued? (cs : List Char) : Option (List Char) :=
  (newline? (skipSpaces cs)).map (skipBreaks false false)

/-- The rest of a text in three quotes, over several lines; with escapes or without. -/
def readLines (quote : Char) (escapes : Bool) : Nat → List Char → List Char → Option (String × List Char)
  | 0, _, _ => none
  | fuel + 1, acc, cs =>
    let run := quoteRun quote cs
    if 3 ≤ run then
      some (String.ofList (List.replicate (run - 3) quote ++ acc).reverse, cs.drop run)
    else
      match newline? cs with
      | some rest => readLines quote escapes fuel ('\n' :: acc) rest
      | none =>
        match cs with
        | [] => none
        | c :: rest =>
          if c = '\\' && escapes then
            match continued? rest with
            | some rest => readLines quote escapes fuel acc rest
            | none => do
              let (c, rest) ← readEscape rest
              readLines quote escapes fuel (c :: acc) rest
          else if isPlain c then readLines quote escapes fuel (c :: acc) rest
          else none

/-- The text after a line break right behind the opening quotes. -/
def afterOpening (cs : List Char) : List Char := (newline? cs).getD cs

/-- A character of a key without quotes. -/
def isBare (c : Char) : Bool := c.isAlphanum || c = '_' || c = '-'

/-- A key without dots. -/
def readSimpleKey (fuel : Nat) (cs : List Char) : Option (String × List Char) :=
  match cs with
  | '"' :: rest => readBasic fuel [] rest
  | '\x27' :: rest => readLiteral rest
  | _ =>
    let body := cs.takeWhile isBare
    if body.isEmpty then none else some (String.ofList body, cs.drop body.length)

/-- How many parts a key may have, and how deep values may be nested. -/
def depthLimit : Nat := 79

/-- A key of at most `parts` parts with dots between them. -/
def readKeyParts (fuel : Nat) : Nat → List Char → Option (List String × List Char)
  | 0, _ => none
  | parts + 1, cs => do
    let (key, rest) ← readSimpleKey fuel (skipSpaces cs)
    match skipSpaces rest with
    | '.' :: rest =>
      let (keys, rest) ← readKeyParts fuel parts rest
      return (key :: keys, rest)
    | rest => return ([key], rest)

/-- A key, dotted or not. -/
def readKey (fuel : Nat) (cs : List Char) : Option (List String × List Char) :=
  readKeyParts fuel depthLimit cs

/-- Digits with single underscores between them, without the underscores. -/
def digits? (isDigit : Char → Bool) (cs : List Char) : Option (List Char) :=
  match cs with
  | [] => none
  | c :: rest => if isDigit c then (go rest).map (c :: ·) else none
where
  /-- The digits after the first one. -/
  go : List Char → Option (List Char)
    | [] => some []
    | c :: rest =>
      if c = '_' then
        match rest with
        | d :: rest => if isDigit d then (go rest).map (d :: ·) else none
        | [] => none
      else if isDigit c then (go rest).map (c :: ·)
      else none

/-- The sign of a number, and what follows. -/
def splitSign (cs : List Char) : Bool × List Char :=
  match cs with
  | '-' :: rest => (true, rest)
  | '+' :: rest => (false, rest)
  | _ => (false, cs)

/-- Decimal digits without a leading zero. -/
def whole? (cs : List Char) : Option (List Char) := do
  let digits ← digits? Char.isDigit cs
  if digits.length = 1 ∨ digits.head? ≠ some '0' then some digits else none

/-- An integer that fits 64 bits. -/
def integer? (cs : List Char) : Option Int :=
  match cs with
  | '0' :: 'x' :: rest => radix 16 (fun c => (hexDigit? c).isSome) rest
  | '0' :: 'o' :: rest => radix 8 (fun c => '0' ≤ c && c ≤ '7') rest
  | '0' :: 'b' :: rest => radix 2 (fun c => c = '0' || c = '1') rest
  | _ => do
    let (negative, rest) := splitSign cs
    let n := digitsValue (← whole? rest)
    if negative then
      if n ≤ UInt64.size / 2 then some (-n) else none
    else if n < UInt64.size / 2 then some n else none
where
  /-- Digits of another base. -/
  radix (base : Nat) (isDigit : Char → Bool) (cs : List Char) : Option Int := do
    let digits ← digits? isDigit cs
    let n := digits.foldl (fun n c => n * base + (hexDigit? c).getD 0) 0
    if n < UInt64.size / 2 then some n else none

/-- A number with a fraction or an exponent, or one of the special values. -/
def float? (cs : List Char) : Option Float := do
  let (negative, body) := splitSign cs
  if body = "inf".toList then return (if negative then -(1 / 0) else 1 / 0)
  if body = "nan".toList then return 0 / 0
  let wholePart := body.takeWhile fun c => c.isDigit || c = '_'
  let digits ← whole? wholePart
  let rest := body.drop wholePart.length
  let (fraction, rest) ←
    match rest with
    | '.' :: rest =>
      let part := rest.takeWhile fun c => c.isDigit || c = '_'
      pure (← digits? Char.isDigit part, rest.drop part.length)
    | _ => pure ([], rest)
  let exponent : Int ←
    match rest with
    | [] => if fraction.isEmpty then none else pure 0
    | c :: rest =>
      if c = 'e' || c = 'E' then
        let (below, rest) := splitSign rest
        let size : Int := digitsValue (← digits? Char.isDigit rest)
        pure (if below then -size else size)
      else none
  let x := (Decimal.mk negative (digitsValue (digits ++ fraction)) (exponent - fraction.length)).nearest
  if x == 1 / 0 then none else some x

/-- A number of `n` digits from `lo` to `hi`, and what follows. -/
def field? (n lo hi : Nat) (cs : List Char) : Option (Nat × List Char) := do
  let digits := cs.take n
  guard (digits.length = n ∧ digits.all Char.isDigit)
  let value := digitsValue digits
  guard (lo ≤ value ∧ value ≤ hi)
  return (value, cs.drop n)

/-- What follows a given character. -/
def expect? (c : Char) (cs : List Char) : Option (List Char) :=
  match cs with
  | d :: rest => if c = d then some rest else none
  | [] => none

/-- The number of days of a month. -/
def daysIn (year month : Nat) : Nat :=
  if month = 2 then
    if year % 4 = 0 ∧ (year % 100 ≠ 0 ∨ year % 400 = 0) then 29 else 28
  else if month = 4 ∨ month = 6 ∨ month = 9 ∨ month = 11 then 30
  else 31

/-- What follows a date. -/
def date? (cs : List Char) : Option (List Char) := do
  let (year, rest) ← field? 4 0 9999 cs
  let (month, rest) ← field? 2 1 12 (← expect? '-' rest)
  let (_, rest) ← field? 2 1 (daysIn year month) (← expect? '-' rest)
  return rest

/-- What follows a time of day. -/
def time? (cs : List Char) : Option (List Char) := do
  let (_, rest) ← field? 2 0 23 cs
  let (_, rest) ← field? 2 0 59 (← expect? ':' rest)
  let (_, rest) ← field? 2 0 60 (← expect? ':' rest)
  match rest with
  | '.' :: rest =>
    let digits := rest.takeWhile Char.isDigit
    if digits.isEmpty then none else return rest.drop digits.length
  | _ => return rest

/-- A whole offset from universal time. -/
def isOffset (cs : List Char) : Bool :=
  match cs with
  | [] => true
  | ['Z'] => true
  | ['z'] => true
  | c :: rest =>
    (c = '+' || c = '-') &&
      (do
        let (_, rest) ← field? 2 0 23 rest
        let (_, rest) ← field? 2 0 59 (← expect? ':' rest)
        return rest.isEmpty).getD false

/-- A whole date, time, or both. -/
def isMoment (cs : List Char) : Bool :=
  match date? cs with
  | some [] => true
  | some (c :: rest) => (c = 'T' || c = 't' || c = ' ') && ((time? rest).map isOffset).getD false
  | none => ((time? cs).map List.isEmpty).getD false

/-- A character of a number, a date or a word. -/
def isTokenChar (c : Char) : Bool := c.isAlphanum || c = '+' || c = '-' || c = '_' || c = '.' || c = ':'

/-- The next word; a date and a time with a blank between them are one. -/
def splitToken (cs : List Char) : List Char × List Char :=
  let word := cs.takeWhile isTokenChar
  let rest := cs.drop word.length
  match date? word, rest with
  | some [], ' ' :: more =>
    match more with
    | d :: _ =>
      if d.isDigit then
        let time := more.takeWhile isTokenChar
        (word ++ ' ' :: time, more.drop time.length)
      else (word, rest)
    | [] => (word, rest)
  | _, _ => (word, rest)

/-- The value of a word. -/
def token? (cs : List Char) : Option Document :=
  if cs = "true".toList then some (.bool true)
  else if cs = "false".toList then some (.bool false)
  else
    match integer? cs with
    | some z => some (.int z)
    | none =>
      match float? cs with
      | some x => some (.real x)
      | none => if isMoment cs then some (.record [("$datetime", .text (String.ofList cs))]) else none

mutual

/-- A value with at most `depth` further levels of nesting. -/
def readValue : Nat → Nat → List Char → Option (Document × List Char)
  | 0, _, _ => none
  | fuel + 1, depth, cs =>
    match cs with
    | '"' :: '"' :: '"' :: rest => do
      let (s, rest) ← readLines '"' true fuel [] (afterOpening rest)
      return (.text s, rest)
    | '\x27' :: '\x27' :: '\x27' :: rest => do
      let (s, rest) ← readLines '\x27' false fuel [] (afterOpening rest)
      return (.text s, rest)
    | '"' :: rest => do
      let (s, rest) ← readBasic fuel [] rest
      return (.text s, rest)
    | '\x27' :: rest => do
      let (s, rest) ← readLiteral rest
      return (.text s, rest)
    | '[' :: rest =>
      if depth = 0 then none
      else do
        let (items, rest) ← readItems fuel (depth - 1) rest
        return (.list items, rest)
    | '\x7b' :: rest =>
      if depth = 0 then none
      else
        match skipSpaces rest with
        | '\x7d' :: rest => some (.record [], rest)
        | rest => do
          let (t, rest) ← readInline fuel (depth - 1) {} rest
          return (t.toDocument, rest)
    | _ => do
      let (word, rest) := splitToken cs
      return (← token? word, rest)

/-- The items of an array up to its closing bracket. -/
def readItems : Nat → Nat → List Char → Option (List Document × List Char)
  | 0, _, _ => none
  | fuel + 1, depth, cs =>
    match skipLines cs with
    | ']' :: rest => some ([], rest)
    | cs => do
      let (d, rest) ← readValue fuel depth cs
      match skipLines rest with
      | ',' :: rest =>
        let (items, rest) ← readItems fuel depth rest
        return (d :: items, rest)
      | ']' :: rest => return ([d], rest)
      | _ => none

/-- The entries of an inline table up to its closing brace. -/
def readInline : Nat → Nat → Table → List Char → Option (Table × List Char)
  | 0, _, _, _ => none
  | fuel + 1, depth, t, cs => do
    let (keys, rest) ← readKey fuel cs
    let rest ← expect? '=' rest
    let (d, rest) ← readValue fuel depth (skipSpaces rest)
    let t ← t.insert keys.dropLast (keys.getLast?.getD "") d
    match skipSpaces rest with
    | ',' :: rest => readInline fuel depth t rest
    | '\x7d' :: rest => return (t, rest)
    | _ => none

end

/-- One line with a header or a value, and what follows; there is fuel for more steps than `cs` has
characters. -/
def readLine (fuel : Nat) (p : Progress) (cs : List Char) : Option (Progress × List Char) :=
  match cs with
  | '[' :: '[' :: rest => do
    let (path, rest) ← readKey fuel rest
    let rest ← expect? ']' (← expect? ']' rest)
    return (← p.openItem path, ← endLine? rest)
  | '[' :: rest => do
    let (path, rest) ← readKey fuel rest
    let rest ← expect? ']' rest
    return (← p.openTable path, ← endLine? rest)
  | _ => do
    let (keys, rest) ← readKey fuel cs
    let rest ← expect? '=' rest
    let (d, rest) ← readValue (fuel + 2 * depthLimit) depthLimit (skipSpaces rest)
    let current ← p.current.insert keys.dropLast (keys.getLast?.getD "") d
    return ({ p with current }, ← endLine? rest)

/-- All lines of a text with fewer characters than steps. -/
def readAll : Nat → Progress → List Char → Option Progress
  | 0, _, _ => none
  | fuel + 1, p, cs =>
    match skipLines cs with
    | [] => some p
    | cs => do
      let (p, rest) ← readLine (fuel + 1) p cs
      readAll fuel p rest

end NpcMind.Toml

/-- The document that a TOML text holds. -/
def NpcMind.Document.ofToml? (text : String) : Option NpcMind.Document := do
  let cs :=
    match text.toList with
    | '\ufeff' :: rest => rest
    | cs => cs
  return (← (← NpcMind.Toml.readAll (cs.length + 1) {} cs).close).toDocument
