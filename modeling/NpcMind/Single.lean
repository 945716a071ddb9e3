/-!
# Single-precision numbers

Every quantity an agent computes is a single-precision number, rounded once per operation.
This module fixes the operations that the arithmetic instances leave open: which operand a maximum
keeps, how a value is confined to an interval, how values are ranked, and how the transcendental
functions are rounded.
-/

namespace NpcMind

/-- A vector of single-precision numbers. -/
abbrev Vec := Array Float32

namespace Single

/-- Positive infinity. -/
def infinity : Float32 := Float32.ofBits 0x7F800000

/-- The larger operand; a NaN gives way to the other operand. -/
def larger (x y : Float32) : Float32 :=
  if x.isNaN then y else if y.isNaN then x else if y < x then x else y

/-- The smaller operand; a NaN gives way to the other operand. -/
def smaller (x y : Float32) : Float32 :=
  if x.isNaN then y else if y.isNaN then x else if x < y then x else y

/-- The value moved into `[lo, hi]`; a NaN stays as it is. -/
def clamp (lo hi x : Float32) : Float32 :=
  if x < lo then lo else if hi < x then hi else x

/-- The value moved into `[0, 1]`. -/
def unit (x : Float32) : Float32 := clamp 0 1 x

/-- The value moved into `[-1, 1]`. -/
def signed (x : Float32) : Float32 := clamp (-1) 1 x

/-- A finite value as it is, zero for anything else. -/
def finiteOrZero (x : Float32) : Float32 := if x.isFinite then x else 0

/-- The position of a value in the total order of the bits: the numbers in order, with negative zero
below positive zero, and NaN after positive infinity. -/
def rank (x : Float32) : UInt32 :=
  if x.toBits < 0x80000000 then x.toBits ||| 0x80000000 else ~~~x.toBits

/-- The natural number below a value, saturating at 64 bits; zero for NaN and negative values. -/
def floorNat (x : Float32) : Nat := x.toUInt64.toNat

/-- The single nearest to a double, the even one of two that are equally near. -/
def ofDouble (x : Float) : Float32 :=
  match x.toModel.unpack with
  | .finite sign mantissa exponent _ =>
    .ofModel (.pack (Float.Model.UnpackedFloat.round .binary32 sign mantissa exponent))
  | u => .ofModel (.pack u)

/-- The exponential, rounded from double precision. -/
def exp (x : Float32) : Float32 := (Float.exp x.toFloat).toFloat32

/-- The hyperbolic tangent, rounded from double precision. -/
def tanh (x : Float32) : Float32 := (Float.tanh x.toFloat).toFloat32

/-- The power, rounded from double precision. -/
def pow (x y : Float32) : Float32 := (Float.pow x.toFloat y.toFloat).toFloat32

/-- The natural logarithm, rounded from double precision. -/
def log (x : Float32) : Float32 := (Float.log x.toFloat).toFloat32

/-- The logistic function. -/
def sigmoid (x : Float32) : Float32 := 1 / (1 + exp (-x))

end Single

namespace Vec

/-- The vector of `n` zeros. -/
def zeros (n : Nat) : Vec := Array.replicate n 0

/-- The sum from left to right. -/
def total (xs : Vec) : Float32 := xs.foldl (· + ·) 0

/-- No entry is a NaN or an infinity. -/
def isFinite (xs : Vec) : Bool := xs.all Float32.isFinite

end Vec

end NpcMind
