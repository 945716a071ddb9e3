import NpcMind.Document.Codec

/-!
# Identities

An agent is known by a 128-bit identity, written in lower case with hyphens after 8, 12, 16 and 20
digits. It is read in any case, with or without hyphens, in braces, or after `urn:uuid:` in any case.
-/

namespace NpcMind

/-- A 128-bit identity. -/
structure Uuid where
  high : UInt64
  low : UInt64
  deriving DecidableEq, Repr, Inhabited

namespace Uuid

/-- The identity of nobody. -/
def nil : Uuid := ⟨0, 0⟩

/-- The two halves folded into one seed. -/
def seed (u : Uuid) : UInt64 := u.low ^^^ u.high

/-- The lowest `n` hexadecimal digits of a number. -/
def hexDigits : Nat → Nat → List Char
  | 0, _ => []
  | n + 1, value => hexDigits n (value / 16) ++ [Nat.digitChar (value % 16)]

/-- The written form. -/
def render (u : Uuid) : String :=
  let high := hexDigits 16 u.high.toNat
  let low := hexDigits 16 u.low.toNat
  String.ofList (high.take 8 ++ ['-'] ++ (high.drop 8).take 4 ++ ['-'] ++ high.drop 12 ++ ['-'] ++
    low.take 4 ++ ['-'] ++ low.drop 4)

/-- The value of a hexadecimal digit of either case. -/
def hexValue? (c : Char) : Option Nat :=
  if '0' ≤ c ∧ c ≤ '9' then some (c.toNat - '0'.toNat)
  else if 'a' ≤ c ∧ c ≤ 'f' then some (c.toNat - 'a'.toNat + 10)
  else if 'A' ≤ c ∧ c ≤ 'F' then some (c.toNat - 'A'.toNat + 10)
  else none

/-- Thirty-two hexadecimal digits. -/
def ofDigits? (cs : List Char) : Option Uuid := do
  guard (cs.length = 32)
  let value ← cs.foldlM (fun n c => (hexValue? c).map (n * 16 + ·)) 0
  return ⟨UInt64.ofNat (value / UInt64.size), UInt64.ofNat value⟩

/-- Thirty-two digits with hyphens in their places. -/
def ofHyphenated? (cs : List Char) : Option Uuid := do
  guard (cs.length = 36)
  guard ([8, 13, 18, 23].all fun i => cs[i]? == some '-')
  ofDigits? (cs.take 8 ++ (cs.drop 9).take 4 ++ (cs.drop 14).take 4 ++ (cs.drop 19).take 4 ++ cs.drop 24)

/-- The identity that a text writes. -/
def ofText? (s : String) : Option Uuid :=
  let cs := s.toList
  if cs.length = 32 then ofDigits? cs
  else if cs.length = 36 then ofHyphenated? cs
  else if cs.length = 38 ∧ cs.head? = some '\x7b' ∧ cs.getLast? = some '\x7d' then
    ofHyphenated? ((cs.drop 1).take 36)
  else if cs.length = 45 ∧ (cs.take 9).map Char.toLower = "urn:uuid:".toList then ofHyphenated? (cs.drop 9)
  else none

instance : Codec Uuid where
  encode u := .text u.render
  decode?
    | .text s => ofText? s
    | _ => none

end Uuid

end NpcMind
