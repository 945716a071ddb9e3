import NpcMind.Proofs.Order
import NpcMind.Proofs.RoundTrip

/-!
# What a Fisher table keeps

Of the averages above a minimum a table keeps the largest ones, as many as the density allows. Larger is meant
in the total order of numbers, and of equal averages the earlier one counts as larger. That is a strict order
without ties, so the entries of a table do not depend on how the largest ones are selected. All of this is about up to
`2 ^ 32` parameters, where every place is its own key.
-/

namespace NpcMind

/-! ### Selections -/

section Selection

variable {α : Type} {r : α → α → Prop} {l l' : List α} {n : ℕ}

/-- The first entries of a list come before all others. -/
def Selects (r : α → α → Prop) (n : ℕ) (l : List α) : Prop := ∀ a ∈ l.take n, ∀ b ∈ l.drop n, r a b

theorem selects_of_pairwise (h : l.Pairwise r) (n : ℕ) : Selects r n l := by
  rw [← List.take_append_drop n l] at h
  exact (List.pairwise_append.mp h).2.2

theorem mem_drop {a : α} (h : a ∈ l) (hn : a ∉ l.take n) : a ∈ l.drop n := by
  rw [← List.take_append_drop n l] at h
  exact (List.mem_append.mp h).resolve_left hn

end Selection

namespace Accumulator

variable {a : Accumulator} {minFisher : Float32} {i j : ℕ}

/-! ### The order of the candidates -/

/-- The average of the squares of a parameter's derivatives. -/
def mean (a : Accumulator) (i : ℕ) : Float32 := a.sums.getD i 0 * (1 / a.samples.toFloat32)

/-- The parameters with an average above a minimum. -/
def candidates (a : Accumulator) (minFisher : Float32) : List ℕ :=
  (List.range a.parameterCount).filter fun i => a.mean i > minFisher

/-- A parameter comes before another one: its average is larger, or it is the same and the parameter is
earlier. -/
def Outranks (a : Accumulator) (i j : ℕ) : Prop :=
  Single.Precedes (a.mean j) (a.mean i) ∨ a.mean i = a.mean j ∧ i < j

theorem lt_of_mem_candidates (h : i ∈ a.candidates minFisher) : minFisher < a.mean i :=
  of_decide_eq_true (List.mem_filter.mp h).2

theorem isNaN_of_mem_candidates (h : i ∈ a.candidates minFisher) : (a.mean i).isNaN = false :=
  (Single.ne_nan_of_lt (lt_of_mem_candidates h)).2

theorem nodup_candidates (a : Accumulator) (minFisher : Float32) : (a.candidates minFisher).Nodup :=
  List.nodup_range.filter _

/-- How a parameter stands among the others. -/
def standing (a : Accumulator) (i : ℕ) : ℕ := (Single.rank (a.mean i)).toNat

theorem outranks_iff (hi : i ∈ a.candidates minFisher) (hj : j ∈ a.candidates minFisher) :
    a.Outranks i j ↔ a.standing j < a.standing i ∨ a.standing i = a.standing j ∧ i < j := by
  have hi := isNaN_of_mem_candidates hi
  have hj := isNaN_of_mem_candidates hj
  rw [Outranks, standing, standing, Single.rank_lt_iff hj hi, Single.rank_inj]

/-- The candidates in their order. -/
def ranking (a : Accumulator) (minFisher : Float32) : List ℕ := ranked a.standing (a.candidates minFisher)

theorem ranking_perm (a : Accumulator) (minFisher : Float32) :
    (a.ranking minFisher).Perm (a.candidates minFisher) := List.mergeSort_perm _ _

theorem pairwise_ranking (a : Accumulator) (minFisher : Float32) :
    (a.ranking minFisher).Pairwise a.Outranks := by
  have hplaces : (a.candidates minFisher).Pairwise (· < ·) := List.pairwise_lt_range.filter _
  refine (pairwise_ranked hplaces).imp_of_mem fun hi hj hij => ?_
  have hmem {i : ℕ} (hi : i ∈ ranked a.standing (a.candidates minFisher)) : i ∈ a.candidates minFisher :=
    (a.ranking_perm minFisher).mem_iff.mp hi
  exact (outranks_iff (hmem hi) (hmem hj)).mpr hij

/-! ### Tables -/

theorem averages_eq (hP : a.parameterCount ≤ UInt32.size) (minFisher : Float32) :
    a.averages minFisher = (a.candidates minFisher).map fun i => (i, a.mean i) := by
  have hzip : a.sums.toList.zipIdx = (List.range a.parameterCount).map fun i => (a.sums.getD i 0, i) := by
    refine List.ext_getElem (by simp [parameterCount]) fun i hi hi' => ?_
    have hsize : i < a.sums.size := by simpa using hi
    simp [hsize]
  have hentries : (a.sums.toList.zipIdx.filterMap fun e =>
      if e.1 * (1 / a.samples.toFloat32) > minFisher then some (Sparse.key e.2, e.1 * (1 / a.samples.toFloat32))
      else none) = (a.candidates minFisher).map fun i => (i, a.mean i) := by
    rw [candidates, hzip, List.filterMap_map, ← List.filterMap_eq_filter, List.map_filterMap]
    refine List.filterMap_congr fun i hi => ?_
    have hkey := Sparse.key_of_lt (Nat.lt_of_lt_of_le (List.mem_range.mp hi) hP)
    by_cases h : a.mean i > minFisher
    · rw [Option.guard, if_pos (decide_eq_true h), Option.map_some]
      exact (if_pos h).trans (congrArg (fun k => some (k, a.mean i)) hkey)
    · rw [Option.guard, if_neg (by simpa using h)]
      exact if_neg h
  have hascending : Sparse.Ascending ((a.candidates minFisher).map fun i => (i, a.mean i)) :=
    List.pairwise_map.mpr (List.pairwise_lt_range.filter _)
  unfold averages
  dsimp only
  rw [hentries, hascending.sorted_eq]

/-- The largest averages are those of the first candidates. -/
theorem largest_perm (hP : a.parameterCount ≤ UInt32.size) (minFisher : Float32) (n : ℕ) :
    (largest n (a.averages minFisher)).Perm (((a.ranking minFisher).take n).map fun i => (i, a.mean i)) := by
  have hsorted : (a.averages minFisher).mergeSort (fun e f => decide (Single.rank f.2 ≤ Single.rank e.2)) =
      (a.ranking minFisher).map fun i => (i, a.mean i) := by
    rw [averages_eq hP]
    refine (List.map_mergeSort fun i _ j _ => ?_).symm
    exact decide_eq_decide.mpr UInt32.le_iff_toNat_le.symm
  unfold largest
  split
  · next hlen =>
    have hall : (a.ranking minFisher).length ≤ n := by
      rwa [averages_eq hP, List.length_map, ← (a.ranking_perm minFisher).length_eq] at hlen
    rw [List.take_of_length_le hall, averages_eq hP]
    exact ((a.ranking_perm minFisher).map _).symm
  · rw [hsorted, ← List.map_take]
    exact List.mergeSort_perm _ _

/-- No place is there twice, so the largest averages ascend. -/
theorem ascending_largest (hP : a.parameterCount ≤ UInt32.size) (minFisher : Float32) (n : ℕ) :
    Sparse.Ascending (largest n (a.averages minFisher)) := by
  have hordered := pairwise_largest (Sparse.pairwise_sorted _ : (a.averages minFisher).Pairwise _) n
  have hdistinct : ((largest n (a.averages minFisher)).map Prod.fst).Nodup := by
    have hranking : (a.ranking minFisher).Nodup :=
      (a.ranking_perm minFisher).nodup_iff.mpr (a.nodup_candidates minFisher)
    rw [((largest_perm hP minFisher n).map _).nodup_iff, List.map_map]
    show (((a.ranking minFisher).take n).map id).Nodup
    rw [List.map_id]
    exact hranking.sublist (List.take_sublist n _)
  exact (hordered.and (List.pairwise_map.mp hdistinct)).imp fun hef => Nat.lt_of_le_of_ne hef.1 hef.2

/-- The parameters of which a table keeps the averages, in their order. -/
def kept (a : Accumulator) (minFisher maxDensity : Float32) : List ℕ :=
  (a.ranking minFisher).take (cap maxDensity a.parameterCount)

theorem entries_finish_perm (h : a.samples ≠ 0) (hP : a.parameterCount ≤ UInt32.size)
    (minFisher maxDensity : Float32) :
    (a.finish minFisher maxDensity).entries.Perm ((a.kept minFisher maxDensity).map fun i => (i, a.mean i)) := by
  have hsome : ¬ a.isEmpty := by simpa [isEmpty] using h
  rw [finish, if_neg hsome, (ascending_largest hP minFisher _).lastOfEach_eq]
  exact largest_perm hP minFisher _

/-- What a table keeps comes before what it drops. -/
theorem outranks_dropped {maxDensity : Float32} (hi : i ∈ a.kept minFisher maxDensity)
    (hj : j ∈ a.candidates minFisher) (hdropped : j ∉ a.kept minFisher maxDensity) : a.Outranks i j :=
  selects_of_pairwise (a.pairwise_ranking minFisher) _ i hi j
    (mem_drop ((a.ranking_perm minFisher).mem_iff.mpr hj) hdropped)

end Accumulator

end NpcMind
