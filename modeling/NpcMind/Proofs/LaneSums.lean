import Mathlib.Algebra.BigOperators.Fin
import Mathlib.Tactic.Abel
import NpcMind.Proofs.Padding

/-!
# Sums by lanes

Where addition is exact, the order of a sum does not matter. Then eight running sums, joined in a tree, and what is
left over behind the last full group of eight come to the plain sum: every entry is in one of them, and in no other.
The running sums are one invariant, `Lanes.join` of them, to which each group adds its own sum. So both backends
give the same sums, the same products of vectors and, row by row, the same products of a matrix and a vector. With
rounding they differ, for the terms are added in another order.
-/

namespace NpcMind

open Outcome

namespace Kernel

section Exact

variable {α : Type} [AddCommMonoid α]

theorem join_zero : (Lanes.zero : Lanes α).join = 0 := by simp [Lanes.join, Lanes.zero]

theorem plainSum_eq (xs : List α) : plainSum xs = xs.sum := List.sum_eq_foldl.symm

/-- **A sum by lanes leaves nothing out**, whatever the number of entries is modulo eight. -/
theorem laneSumFrom_eq (s : Lanes α) (xs : List α) : laneSumFrom s xs = s.join + xs.sum := by
  fun_induction laneSumFrom s xs with
  | case1 s x0 x1 x2 x3 x4 x5 x6 x7 rest ih =>
    rw [ih]
    simp only [Lanes.join, List.sum_cons]
    abel
  | case2 s rest => rw [plainSum_eq]

theorem sum_eq (b : Backend) (xs : Array α) : sum b xs = xs.toList.sum := by
  cases b with
  | scalar => exact plainSum_eq xs.toList
  | lanes =>
    show laneSumFrom .zero xs.toList = xs.toList.sum
    rw [laneSumFrom_eq, join_zero, zero_add]

variable [Mul α]

/-- **A product by lanes pairs the entries as they stand**, whatever the two lengths are modulo eight. -/
theorem laneDotFrom_eq (s : Lanes α) (xs ys : List α) :
    laneDotFrom s xs ys = s.join + (List.zipWith (· * ·) xs ys).sum := by
  fun_induction laneDotFrom s xs ys with
  | case1 s x0 x1 x2 x3 x4 x5 x6 x7 xs y0 y1 y2 y3 y4 y5 y6 y7 ys ih =>
    rw [ih]
    simp only [Lanes.join, List.zipWith_cons_cons, List.sum_cons]
    abel
  | case2 s xs ys => rw [plainSum_eq]

theorem dot_eq (b : Backend) (xs ys : Array α) :
    dot b xs ys = (List.zipWith (· * ·) xs.toList ys.toList).sum := by
  cases b with
  | scalar => exact plainSum_eq _
  | lanes =>
    show laneDotFrom .zero xs.toList ys.toList = _
    rw [laneDotFrom_eq, join_zero, zero_add]

/-! ### Sums by place -/

omit [Mul α] in
theorem sum_eq_range (b : Backend) (xs : Array α) : sum b xs = ∑ i ∈ Finset.range xs.size, xs.getD i 0 := by
  rw [sum_eq, Finset.sum_range, ← List.sum_ofFn]
  refine congrArg List.sum (List.ext_getElem (by simp) fun i hi _ => ?_)
  simp only [List.getElem_ofFn, Array.getElem_toList, Array.getD_eq_getD_getElem?]
  rw [Array.getElem?_eq_getElem (by simpa using hi), Option.getD_some]

theorem dot_eq_range (b : Backend) (xs ys : Array α) :
    dot b xs ys = ∑ i ∈ Finset.range (min xs.size ys.size), xs.getD i 0 * ys.getD i 0 := by
  rw [dot_eq, Finset.sum_range, ← List.sum_ofFn]
  refine congrArg List.sum (List.ext_getElem (by simp) fun i hi _ => ?_)
  have hsize : i < xs.size ∧ i < ys.size := by simpa using hi
  simp only [List.getElem_ofFn, List.getElem_zipWith, Array.getElem_toList, Array.getD_eq_getD_getElem?]
  rw [Array.getElem?_eq_getElem hsize.1, Array.getElem?_eq_getElem hsize.2, Option.getD_some, Option.getD_some]

/-! ### Products of a matrix and a vector -/

/-- The rows of the matrix times the vector. -/
def rowProducts (a : Tensor α) (x : Array α) : Array α :=
  ((List.range a.rows).map fun r => ∑ c ∈ Finset.range a.cols, a.get r c * x.getD c 0).toArray

theorem apply_lanes (a : Tensor α) (x : Array α) : apply .lanes a x = apply .scalar a x := by
  simp only [apply, dot_eq]

theorem matvec_lanes (a : Tensor α) (x : Array α) (n : Nat) : matvec .lanes a x n = matvec .scalar a x n := by
  rw [matvec, apply_lanes, matvec]

theorem apply_eq {a : Tensor α} (h : a.isWhole = true) {x : Array α} (hx : x.size = a.cols) (b : Backend) :
    apply b a x = rowProducts a x := by
  rw [apply, rowProducts, ← List.toArray_range, List.map_toArray]
  refine congrArg List.toArray (List.map_congr_left fun r hr => ?_)
  rw [dot_eq_range, Tensor.size_row h (List.mem_range.mp hr), hx, Nat.min_self]
  refine Finset.sum_congr rfl fun c hc => ?_
  rw [Tensor.getD_row a r (Finset.mem_range.mp hc)]

theorem matvec_eq {a : Tensor α} (h : a.isWhole = true) {x : Array α} (hx : x.size = a.cols) (b : Backend) :
    matvec b a x a.rows = .ok (rowProducts a x) := by
  rw [matvec, hx, expectSize_ok, expectSize_ok, if_pos h, apply_eq h hx]
  rfl

end Exact

/-- **Lanes take every entry once.** Over the integers, `dot` and `sum` are the same for both backends: the sum of the
products of the entries with a partner, and the sum of all entries. So `matvec` is the same, results and errors alike;
for a tensor `a` that is whole and a vector of `a.cols` entries it is `rowProducts a xs`. -/
theorem lanes_take_every_entry_once (xs ys : Array ℤ) (a : Tensor ℤ) (n : ℕ) :
    (dot .lanes xs ys = dot .scalar xs ys ∧
      dot .scalar xs ys = ∑ i ∈ Finset.range (min xs.size ys.size), xs.getD i 0 * ys.getD i 0) ∧
    (sum .lanes xs = sum .scalar xs ∧ sum .scalar xs = ∑ i ∈ Finset.range xs.size, xs.getD i 0) ∧
    matvec .lanes a xs n = matvec .scalar a xs n ∧
    (a.isWhole = true → xs.size = a.cols → matvec .scalar a xs a.rows = .ok (rowProducts a xs)) := by
  refine ⟨⟨?_, dot_eq_range .scalar xs ys⟩, ⟨?_, sum_eq_range .scalar xs⟩, matvec_lanes a xs n, fun h hx => ?_⟩
  · rw [dot_eq, dot_eq]
  · rw [sum_eq, sum_eq]
  · exact matvec_eq h hx .scalar

/-- Two rows of nine entries: one full group, and one entry left over. -/
theorem lanes_take_nine_entries_once : ∃ a : Tensor ℤ,
    Tensor.ofRows 2 9 #[1, 2, 3, 4, 5, 6, 7, 8, 9, 1, 0, 0, 0, 0, 0, 0, 0, -1] = .ok a ∧
      matvec .lanes a #[1, 1, 1, 1, 1, 1, 1, 1, 10] 2 = .ok #[126, -9] := by
  refine ⟨_, rfl, ?_⟩
  obtain ⟨-, -, hlanes, hrows⟩ := lanes_take_every_entry_once #[1, 1, 1, 1, 1, 1, 1, 1, 10] #[]
    (Tensor.mk 2 9 #[1, 2, 3, 4, 5, 6, 7, 8, 9, 0, 0, 0, 0, 0, 0, 0, 1, 0, 0, 0, 0, 0, 0, 0, -1, 0, 0, 0, 0, 0, 0, 0]) 2
  exact hlanes.trans ((hrows (by decide) (by decide)).trans rfl)

end Kernel

end NpcMind
