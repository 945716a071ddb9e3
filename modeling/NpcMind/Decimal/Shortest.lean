/-!
# Shortest decimals

A binary floating-point number stands for every real that rounds to it. Its shortest decimal is the
number with the fewest digits among them, and the nearest one where two have equally few digits.

The value is `mantissa · 2 ^ exponent`. On the grid of multiples of `10 ^ k` only the two grid points
around the value have to be looked at, so the search goes from coarse grids to fine ones and stops at
the first grid with a hit. All comparisons are between natural numbers.
-/

namespace NpcMind

/-- The number `± digits · 10 ^ exponent`. -/
structure Decimal where
  negative : Bool
  digits : Nat
  exponent : Int
  deriving DecidableEq, Repr, Inhabited

/-- A positive number `mantissa · 2 ^ exponent` together with the reals that round to it. -/
structure Binary where
  mantissa : Nat
  exponent : Int
  /-- The next number below is half as far away as the next number above. -/
  narrowBelow : Bool
  deriving DecidableEq, Repr

namespace Binary

/-- The value of a bit pattern without its sign: `fractionBits` low bits of fraction under a biased
exponent, and `least` the exponent of the smallest positive value. -/
def ofBits (fractionBits : Nat) (least : Int) (bits : Nat) : Binary :=
  let fraction := bits % Nat.pow 2 fractionBits
  let biased := bits / Nat.pow 2 fractionBits
  if biased = 0 then ⟨fraction, least, false⟩
  else ⟨fraction + Nat.pow 2 fractionBits, least + biased - 1, fraction = 0 && biased > 1⟩

/-- The single grid point of `10 ^ k` that stands for the value, if there is one. -/
def gridPoint? (x : Binary) (k : Int) : Option Nat :=
  let quarter := x.exponent - 2
  let grid := Nat.pow 10 k.toNat * Nat.pow 2 (-quarter).toNat
  let scale := Nat.pow 2 quarter.toNat * Nat.pow 10 (-k).toNat
  let value := 4 * x.mantissa * scale
  let low := (if x.narrowBelow then 4 * x.mantissa - 1 else 4 * x.mantissa - 2) * scale
  let high := (4 * x.mantissa + 2) * scale
  let stands (c : Nat) : Bool :=
    if x.mantissa % 2 = 0 then low ≤ c * grid && c * grid ≤ high
    else low < c * grid && c * grid < high
  let below := value / grid
  let above := below + 1
  match stands below, stands above with
  | false, false => none
  | true, false => some below
  | false, true => some above
  | true, true =>
    let left := value - below * grid
    let right := above * grid - value
    if left < right then some below
    else if right < left then some above
    else if below % 2 = 0 then some below else some above

/-- The first hit on the grids `10 ^ k`, `10 ^ (k - 1)`, …, at most `fuel` of them. -/
def firstHit (x : Binary) : Nat → Int → Option (Nat × Int)
  | 0, _ => none
  | fuel + 1, k =>
    match x.gridPoint? k with
    | some c => some (c, k)
    | none => firstHit x fuel (k - 1)

/-- A power of ten at least as large as the value, at most two too high. -/
def magnitude (x : Binary) : Int :=
  (((x.mantissa.log2 : Int) + x.exponent) * 30103).fdiv 100000 + 2

/-- The fewest digits that stand for the value, and the exponent they go with. -/
def shortest (x : Binary) : Nat × Int :=
  if x.mantissa = 0 then (0, 0) else (x.firstHit 24 x.magnitude).getD (x.mantissa, 0)

end Binary

namespace Decimal

/-- The shortest decimal of a finite single-precision number. -/
def ofSingle (x : Float32) : Decimal :=
  let bits := x.toBits.toNat
  let (digits, exponent) := (Binary.ofBits 23 (-149) (bits % (UInt32.size / 2))).shortest
  ⟨UInt32.size / 2 ≤ bits, digits, exponent⟩

/-- The shortest decimal of a finite double-precision number. -/
def ofDouble (x : Float) : Decimal :=
  let bits := x.toBits.toNat
  let (digits, exponent) := (Binary.ofBits 52 (-1074) (bits % (UInt64.size / 2))).shortest
  ⟨UInt64.size / 2 ≤ bits, digits, exponent⟩

/-- Plain notation for numbers between `10 ^ (-5)` and `10 ^ 16`, and `d.ddde±x` outside; a point or
an exponent is always there. -/
def render (d : Decimal) : String :=
  let digits := toString d.digits
  let point : Int := digits.length + d.exponent
  let body :=
    if d.digits = 0 then "0.0"
    else if 0 < point && point ≤ 16 then
      if 0 ≤ d.exponent then digits ++ String.ofList (List.replicate d.exponent.toNat '0') ++ ".0"
      else (digits.take point.toNat).toString ++ "." ++ (digits.drop point.toNat).toString
    else if -5 < point && point ≤ 0 then
      "0." ++ String.ofList (List.replicate (-point).toNat '0') ++ digits
    else
      let tail := (digits.drop 1).toString
      (digits.take 1).toString ++ (if tail = "" then "" else "." ++ tail) ++ "e" ++ toString (point - 1)
  if d.negative then "-" ++ body else body

end Decimal

end NpcMind
