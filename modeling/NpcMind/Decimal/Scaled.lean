import NpcMind.Decimal.Shortest

/-!
# Reading decimals in double precision

Two readings of a decimal as a double. `nearest` rounds the exact value once. `scaled` converts the
digits first and then scales them by a power of ten, so that it may be off in the last place for
exponents beyond 22; documents are read this way.
-/

namespace NpcMind.Decimal

/-- The digits times `10 ^ exponent`, one rounded operation for each factor of at most `10 ^ 308`;
`none` above the largest double. -/
def scaleBy : Nat → Float → Int → Option Float
  | 0, x, _ => some x
  | fuel + 1, x, exponent =>
    if exponent.natAbs ≤ 308 then
      let power := Float.ofScientific 1 false exponent.natAbs
      if 0 ≤ exponent then
        if (x * power).isInf then none else some (x * power)
      else some (x / power)
    else if x == 0 then some x
    else if 0 ≤ exponent then none
    else scaleBy fuel (x / 1e308) (exponent + 308)

/-- The value by conversion and scaling. -/
def scaled (d : Decimal) : Option Float :=
  (scaleBy 4 d.digits.toFloat d.exponent).map fun x => if d.negative then -x else x

/-- The double nearest to the exact value; infinite above the largest double. -/
def nearest (d : Decimal) : Float :=
  let size : Int := (toString d.digits).length + d.exponent
  let x :=
    if d.digits = 0 || size < -400 then 0
    else if 400 < size then 1 / 0
    else if 0 ≤ d.exponent then Float.ofScientific d.digits false d.exponent.toNat
    else Float.ofScientific d.digits true (-d.exponent).toNat
  if d.negative then -x else x

end NpcMind.Decimal
