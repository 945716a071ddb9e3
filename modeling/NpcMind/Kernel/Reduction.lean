import NpcMind.Document.Codec
import NpcMind.Single

/-!
# Sums

Two orders of summation. The plain one goes from left to right. The other keeps eight running sums, one
for each place modulo eight, joins them in a tree and adds what is left over at the end. The two agree
in exact arithmetic and may differ in the last place otherwise.

Everything here is over any type with a zero, a sum and a product.
-/

namespace NpcMind

/-- The order in which sums are taken. -/
inductive Backend where
  | scalar
  | lanes
  deriving DecidableEq, Repr, Inhabited

/-- The name of a backend. -/
def Backend.name : Backend → String
  | .scalar => "scalar"
  | .lanes => "lanes"

/-- A configured backend. -/
inductive BackendChoice where
  | automatic
  | scalar
  | lanes
  deriving DecidableEq, Repr, Inhabited

namespace BackendChoice

/-- The name of a choice. -/
def name : BackendChoice → String
  | .automatic => "auto"
  | .scalar => "scalar"
  | .lanes => "lanes"

instance : Named BackendChoice := ⟨[.automatic, .scalar, .lanes], name⟩

instance : Codec BackendChoice := Named.codec

/-- The backend that a choice stands for; `detected`, the one that suits the machine, if it is left open. -/
def resolve (detected : Backend) : BackendChoice → Backend
  | .automatic => detected
  | .scalar => .scalar
  | .lanes => .lanes

end BackendChoice

/-- Eight running sums. -/
structure Lanes (α : Type) where
  l0 : α
  l1 : α
  l2 : α
  l3 : α
  l4 : α
  l5 : α
  l6 : α
  l7 : α

namespace Lanes

variable {α : Type} [OfNat α 0] [Add α]

/-- Eight empty sums. -/
def zero : Lanes α := ⟨0, 0, 0, 0, 0, 0, 0, 0⟩

/-- The sums joined in a tree. -/
def join (s : Lanes α) : α :=
  ((s.l0 + s.l4) + (s.l1 + s.l5)) + ((s.l2 + s.l6) + (s.l3 + s.l7))

end Lanes

namespace Kernel

section Reduction

variable {α : Type} [OfNat α 0] [Add α]

/-- The sum from left to right. -/
@[specialize] def plainSum (xs : List α) : α := xs.foldl (· + ·) 0

/-- The sum by lanes, from running sums on. -/
@[specialize] def laneSumFrom (s : Lanes α) : List α → α
  | x0 :: x1 :: x2 :: x3 :: x4 :: x5 :: x6 :: x7 :: rest =>
    laneSumFrom ⟨s.l0 + x0, s.l1 + x1, s.l2 + x2, s.l3 + x3, s.l4 + x4, s.l5 + x5, s.l6 + x6, s.l7 + x7⟩
      rest
  | rest => s.join + plainSum rest

/-- The sum of a vector. -/
@[specialize] def sum (b : Backend) (xs : Array α) : α :=
  match b with
  | .scalar => plainSum xs.toList
  | .lanes => laneSumFrom .zero xs.toList

variable [Mul α]

/-- The sum of the products of matching entries by lanes, from running sums on. -/
@[specialize] def laneDotFrom (s : Lanes α) : List α → List α → α
  | x0 :: x1 :: x2 :: x3 :: x4 :: x5 :: x6 :: x7 :: xs,
    y0 :: y1 :: y2 :: y3 :: y4 :: y5 :: y6 :: y7 :: ys =>
    laneDotFrom ⟨s.l0 + x0 * y0, s.l1 + x1 * y1, s.l2 + x2 * y2, s.l3 + x3 * y3, s.l4 + x4 * y4,
      s.l5 + x5 * y5, s.l6 + x6 * y6, s.l7 + x7 * y7⟩ xs ys
  | xs, ys => s.join + plainSum (List.zipWith (· * ·) xs ys)

/-- The sum of the products of matching entries, up to the shorter length. -/
@[specialize] def dot (b : Backend) (xs ys : Array α) : α :=
  match b with
  | .scalar => plainSum (List.zipWith (· * ·) xs.toList ys.toList)
  | .lanes => laneDotFrom .zero xs.toList ys.toList

/-- `y + a · x` entry by entry; what is longer in `y` stays. -/
def plainAxpy (a : α) : List α → List α → List α
  | x :: xs, y :: ys => (y + a * x) :: plainAxpy a xs ys
  | _, ys => ys

/-- `y + a · x` in groups of eight entries; what is longer in `y` stays. -/
def laneAxpy (a : α) : List α → List α → List α
  | x0 :: x1 :: x2 :: x3 :: x4 :: x5 :: x6 :: x7 :: xs,
    y0 :: y1 :: y2 :: y3 :: y4 :: y5 :: y6 :: y7 :: ys =>
    (y0 + a * x0) :: (y1 + a * x1) :: (y2 + a * x2) :: (y3 + a * x3) ::
      (y4 + a * x4) :: (y5 + a * x5) :: (y6 + a * x6) :: (y7 + a * x7) :: laneAxpy a xs ys
  | xs, ys => plainAxpy a xs ys

/-- `y + a · x`; what is longer in `y` stays. -/
def axpy (b : Backend) (a : α) (xs ys : Array α) : Array α :=
  match b with
  | .scalar => (plainAxpy a xs.toList ys.toList).toArray
  | .lanes => (laneAxpy a xs.toList ys.toList).toArray

omit [OfNat α 0]

theorem laneAxpy_eq (a : α) (xs ys : List α) : laneAxpy a xs ys = plainAxpy a xs ys := by
  fun_induction laneAxpy a xs ys with
  | case1 x0 x1 x2 x3 x4 x5 x6 x7 xs y0 y1 y2 y3 y4 y5 y6 y7 ys ih => simp only [plainAxpy, ih]
  | case2 => rfl

theorem axpy_lanes (a : α) (xs ys : Array α) : axpy .lanes a xs ys = axpy .scalar a xs ys := by
  simp only [axpy, laneAxpy_eq]

end Reduction

end Kernel

end NpcMind
