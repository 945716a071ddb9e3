import NpcMind.Kernel.Reduction

/-!
# Elementwise operations

Operations that treat every entry alike, the softmax, and similarities of vectors.
-/

namespace NpcMind.Kernel

/-- Two reductions agree up to this, relative to the larger one. -/
def tolerance : Float32 := 1e-4

/-- The length of a vector. -/
def norm (b : Backend) (x : Vec) : Float32 := (dot b x x).sqrt

/-- The cosine of the angle between two vectors; zero if one has no length. -/
def cosine (b : Backend) (x y : Vec) : Float32 :=
  let lengths := norm b x * norm b y
  if lengths < 1e-12 then 0 else Single.signed (dot b x y / lengths)

/-- Every entry times a factor. -/
def scale (x : Vec) (a : Float32) : Vec := x.map (· * a)

/-- An operation on matching entries; what is longer in the first vector stays. -/
def combine (f : Float32 → Float32 → Float32) (y x : Vec) : Vec :=
  Array.zipWith f y x ++ y.extract (min y.size x.size) y.size

/-- Entries added. -/
def add (y x : Vec) : Vec := combine (· + ·) y x

/-- Entries multiplied. -/
def hadamard (y x : Vec) : Vec := combine (· * ·) y x

/-- The positive part of every entry. -/
def relu (x : Vec) : Vec := x.map (Single.larger · 0)

/-- The largest entry. -/
def maximum (x : Vec) : Float32 := x.foldl Single.larger (-Single.infinity)

/-- Exponentials of the entries, divided by their sum; equal shares if the sum is of no use. -/
def softmax (x : Vec) : Vec :=
  let top := maximum x
  let powers := x.map fun v => Single.exp (v - top)
  let total := Vec.total powers
  if total > 0 && total.isFinite then powers.map (· * (1 / total))
  else Array.replicate x.size (1 / x.size.toFloat32)

/-- Two numbers agree within the tolerance of reductions. -/
def agree (x y : Float32) : Bool :=
  (x - y).abs ≤ tolerance * Single.larger (Single.larger x.abs y.abs) 1

end NpcMind.Kernel
