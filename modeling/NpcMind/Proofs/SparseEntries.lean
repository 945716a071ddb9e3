import NpcMind.Consolidation.FisherTable

/-!
# Entries in ascending order

`Sparse.Ascending` says that the keys of a list of entries strictly ascend. Whatever a list is like,
`Sparse.ofEntries` makes such a list of it, and it leaves a list alone that is one already. A place below `2 ^ 32` is
its own key.
-/

namespace NpcMind

namespace Sparse

variable {α : Type} {entries : List (Nat × α)}

/-- The entries are in ascending order of their keys, each key once. -/
def Ascending (entries : List (Nat × α)) : Prop := entries.Pairwise fun e f => e.1 < f.1

theorem Ascending.le_last (h : Ascending entries) {last : Nat × α} (hlast : entries.getLast? = some last) :
    ∀ e ∈ entries, e.1 ≤ last.1 := by
  intro e he
  obtain ⟨front, rfl⟩ := List.getLast?_eq_some_iff.mp hlast
  rcases List.mem_append.mp he with he | he
  · exact Nat.le_of_lt ((List.pairwise_append.mp h).2.2 e he last (by simp))
  · exact Nat.le_of_eq (congrArg Prod.fst (List.mem_singleton.mp he))

theorem Ascending.below_iff (h : Ascending entries) (n : Nat) :
    (∀ e ∈ entries, e.1 < n) ↔ ∀ last, entries.getLast? = some last → last.1 < n := by
  constructor
  · intro hall last hlast
    exact hall last (List.mem_of_getLast? hlast)
  · intro hlast e he
    have hl := List.getLast?_eq_some_getLast (List.ne_nil_of_mem he)
    exact Nat.lt_of_le_of_lt (h.le_last hl e he) (hlast _ hl)

/-! ### The last entry for each key -/

theorem mem_of_mem_lastOfEach {e : Nat × α} (he : e ∈ lastOfEach entries) : e ∈ entries := by
  fun_induction lastOfEach entries with
  | case1 => exact he
  | case2 => exact he
  | case3 e₀ f rest _ ih => exact List.mem_cons_of_mem e₀ (ih he)
  | case4 e₀ f rest _ ih =>
    rcases List.mem_cons.mp he with rfl | he
    · exact List.mem_cons_self
    · exact List.mem_cons_of_mem e₀ (ih he)

theorem ascending_lastOfEach (h : entries.Pairwise fun e f => e.1 ≤ f.1) : Ascending (lastOfEach entries) := by
  fun_induction lastOfEach entries with
  | case1 => exact .nil
  | case2 e => exact List.pairwise_singleton _ e
  | case3 e f rest _ ih => exact ih (List.pairwise_cons.mp h).2
  | case4 e f rest hne ih =>
    obtain ⟨hfirst, hrest⟩ := List.pairwise_cons.mp h
    refine List.pairwise_cons.mpr ⟨fun g hg => ?_, ih hrest⟩
    have hef := hfirst f List.mem_cons_self
    have hfg : f.1 ≤ g.1 := by
      rcases List.mem_cons.mp (mem_of_mem_lastOfEach hg) with rfl | hg
      · exact Nat.le_refl _
      · exact (List.pairwise_cons.mp hrest).1 g hg
    omega

theorem Ascending.lastOfEach_eq (h : Ascending entries) : lastOfEach entries = entries := by
  fun_induction lastOfEach entries with
  | case1 => rfl
  | case2 => rfl
  | case3 e f rest heq _ =>
    have hlt := (List.pairwise_cons.1 h).1 f List.mem_cons_self
    omega
  | case4 e f rest hne ih => rw [ih (List.pairwise_cons.1 h).2]

/-! ### Sorting -/

theorem pairwise_sorted (entries : List (Nat × α)) :
    (entries.mergeSort fun e f => decide (e.1 ≤ f.1)).Pairwise fun e f => e.1 ≤ f.1 := by
  have hsorted : (entries.mergeSort fun e f => decide (e.1 ≤ f.1)).Pairwise
      fun e f => decide (e.1 ≤ f.1) = true := by
    apply List.pairwise_mergeSort
    · intro a b c hab hbc
      simp only [decide_eq_true_eq] at hab hbc ⊢
      omega
    · intro a b
      simp only [Bool.or_eq_true, decide_eq_true_eq]
      omega
  exact hsorted.imp of_decide_eq_true

/-- Entries that ascend are in order already. -/
theorem Ascending.sorted_eq (h : Ascending entries) :
    entries.mergeSort (fun e f => decide (e.1 ≤ f.1)) = entries :=
  List.mergeSort_of_pairwise (h.imp fun hlt => decide_eq_true (Nat.le_of_lt hlt))

theorem ascending_ofEntries (entries : List (Nat × α)) : Ascending (ofEntries entries) :=
  ascending_lastOfEach (pairwise_sorted entries)

theorem mem_of_mem_ofEntries {e : Nat × α} (he : e ∈ ofEntries entries) : e ∈ entries :=
  List.mem_mergeSort.mp (mem_of_mem_lastOfEach he)

theorem Ascending.ofEntries_eq (h : Ascending entries) : ofEntries entries = entries := by
  rw [ofEntries, h.sorted_eq, h.lastOfEach_eq]

theorem ascending_of_ofDocument {d : Document} {entries : List (Nat × Float32)}
    (h : ofDocument? d = some entries) : Ascending entries := by
  unfold ofDocument? at h
  split at h
  · obtain ⟨read, -, h⟩ := Option.bind_eq_some_iff.mp h
    cases h
    exact ascending_ofEntries read
  · cases h

/-! ### Keys -/

theorem key_of_lt {i : Nat} (h : i < UInt32.size) : key i = i := Nat.mod_eq_of_lt h

theorem key_le (i : Nat) : key i ≤ i := Nat.mod_le i _

theorem key_lt (i : Nat) : key i < UInt32.size := Nat.mod_lt i (by decide)

end Sparse

end NpcMind
