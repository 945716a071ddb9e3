import NpcMind.Proofs.LambdaRange
import NpcMind.Proofs.LastLayer
import NpcMind.Proofs.Signs

/-!
# What penalties pull towards

A penalty is a sum of squares with weights: lambda, the importance of a task and the entries of its table. As long as
no weight is negative, neither is the penalty, and each of its derivatives points away from the parameter that the
task was learned with, so that going against it leads there. Entries are checked wherever a task comes in. The
importance is not: a task that is stored gets one that is not negative, but one that is put back keeps whatever
importance was recorded.
-/

namespace NpcMind

open Outcome

/-! ### Weights -/

namespace Single

variable {x y : Float32}

/-- The sign of what is squared does not matter. -/
theorem not_neg_square (hx : ¬ x < 0) (y : Float32) : ¬ x * y * y < 0 := by
  intro h
  -- `x * y` has the other sign than `y`, which makes `x` negative whatever the sign of `y` is.
  rcases neg_of_mul h with ⟨hpos, hy⟩ | ⟨hneg, hy⟩
  · rcases pos_of_mul hpos with ⟨-, hy'⟩ | ⟨hx', -⟩
    · exact lt_asymm hy hy'
    · exact hx hx'
  · rcases neg_of_mul hneg with ⟨-, hy'⟩ | ⟨hx', -⟩
    · exact lt_asymm hy hy'
    · exact hx hx'

end Single

/-! ### Penalties and their derivatives -/

section

variable {t : Task Float32} {tasks : List (Task Float32)} {lambda : Float32}

/-- No weight of the task is negative. -/
structure Task.Weighs (t : Task Float32) : Prop where
  importance : ¬ t.importance < 0
  fisher : ∀ e ∈ t.fisher.entries, ¬ e.2 < 0

theorem Task.Weighs.drift (h : t.Weighs) (current : Vec) : ¬ (t.drift current).1 < 0 := by
  unfold Task.drift
  refine List.foldlRecOn (motive := fun sum : Float32 × Nat => ¬ sum.1 < 0) _ _ (by decide) fun sum hsum e he => ?_
  exact Single.not_neg_add hsum (Single.not_neg_square (h.fisher e he) _)

/-- **The penalty is not negative.** -/
theorem Penalty.not_neg_report (h : ∀ t ∈ tasks, t.Weighs) (hlambda : ¬ lambda < 0) (current : Vec) :
    ¬ (report lambda tasks current).value < 0 := by
  refine Single.not_neg_mul hlambda ?_
  unfold drifts
  refine List.foldlRecOn (motive := fun sum : Float32 × Nat => ¬ sum.1 < 0) _ _ (by decide) fun sum hsum t ht => ?_
  exact Single.not_neg_add hsum (Single.not_neg_mul (h t ht).importance ((h t ht).drift current))

/-- **Going against a derivative leads towards the parameter that the task was learned with.** -/
theorem Task.Weighs.gradient (h : t.Weighs) (hlambda : ¬ lambda < 0) {current : Vec} {u : Nat × Float32}
    (hu : u ∈ t.gradient lambda current) :
    (0 < u.2 → t.optimal.getD u.1 0 < current.getD u.1 0) ∧
      (u.2 < 0 → current.getD u.1 0 < t.optimal.getD u.1 0) := by
  obtain ⟨e, he, rfl⟩ := List.mem_map.mp hu
  have hweight : ¬ 2 * lambda * t.importance * e.2 < 0 :=
    Single.not_neg_mul (Single.not_neg_mul (Single.not_neg_mul (by decide) hlambda) h.importance) (h.fisher e he)
  refine ⟨fun hpos => Single.lt_of_sub_pos ?_, fun hneg => Single.lt_of_sub_neg ?_⟩
  · exact (Single.pos_of_mul hpos).elim And.right fun hboth => absurd hboth.1 hweight
  · exact (Single.neg_of_mul hneg).elim And.right fun hboth => absurd hboth.1 hweight

end

/-! ### Where tasks come from -/

namespace Consolidator

variable {count : Nat} {c : Config.Consolidation} {k k' : Consolidator} {calls : List Call} {t : Task Float32}

/-- The task is about that many parameters, and its importance is not negative unless one of the calls put it back. -/
structure Stored (count : Nat) (calls : List Call) (t : Task Float32) : Prop where
  optimal : t.optimal.size = count
  fisher : t.fisher.Suits count
  importance : 0 ≤ t.importance ∨ ∃ r, .restore r ∈ calls ∧ t ∈ r.tasks

theorem makeRoom_subset (k : Consolidator) :
    k.makeRoom.2.parameterCount = k.parameterCount ∧ ∀ t ∈ k.makeRoom.2.tasks, t ∈ k.tasks := by
  unfold makeRoom
  split
  · exact ⟨rfl, fun t ht => ht⟩
  · split
    · exact ⟨rfl, fun t ht => ht⟩
    · exact ⟨rfl, fun t ht => List.mem_of_mem_eraseIdx ht⟩

theorem valid_of_consolidate {id : Uuid} {name : String} {optimal : Vec} {fisher : FisherTable Float32}
    {importance : Float32} {tick : UInt64} {out : Option (Task Float32) × Consolidator}
    (h : k.consolidate id name optimal fisher importance tick = .ok out) :
    optimal.size = k.parameterCount ∧ fisher.validate k.parameterCount = .ok () := by
  unfold Consolidator.consolidate at h
  dsimp only at h
  split at h
  · cases h
  · next hsize =>
    obtain ⟨_, hvalid, -⟩ := ok_of_bind h
    exact ⟨Decidable.not_not.mp hsize, hvalid⟩

/-- All tasks were stored or put back by some of the calls. -/
structure Accounted (count : Nat) (calls : List Call) (k : Consolidator) : Prop where
  parameterCount : k.parameterCount = count
  tasks : ∀ t ∈ k.tasks, Stored count calls t

theorem Accounted.consolidate (h : k.Accounted count calls) {id : Uuid} {name : String} {optimal : Vec}
    {fisher : FisherTable Float32} (hf : Sparse.Ascending fisher.entries) {importance : Float32} {tick : UInt64}
    {pruned : Option (Task Float32)}
    (hk : k.consolidate id name optimal fisher importance tick = .ok (pruned, k')) : k'.Accounted count calls := by
  obtain ⟨hsize, hvalid⟩ := valid_of_consolidate hk
  obtain ⟨-, rfl⟩ := eq_of_consolidate hk
  obtain ⟨hcount, hsubset⟩ := k.makeRoom_subset
  rw [h.parameterCount] at hsize hvalid
  refine ⟨hcount.trans h.parameterCount, fun t ht => ?_⟩
  rcases List.mem_append.mp ht with ht | ht
  · exact h.tasks t (hsubset t ht)
  · obtain rfl := List.mem_singleton.mp ht
    exact ⟨hsize, (FisherTable.validate_iff hf).mp hvalid, .inl (Single.le_larger importance rfl)⟩

theorem Accounted.restore (h : k.Accounted count calls) {r : ConsolidatorRecord} (hr : .restore r ∈ calls)
    (hordered : ∀ t ∈ r.tasks, Sparse.Ascending t.fisher.entries) (hk : k.restore r = .ok k') :
    k'.Accounted count calls := by
  have htakes := takes_of_restore hk
  refine ⟨?_, fun t ht => ?_⟩
  · rw [htakes.restore_eq] at hk
    obtain ⟨lambda, -, hk⟩ := ok_of_bind hk
    cases hk
    exact h.parameterCount
  · rw [tasks_of_restore hk] at ht
    obtain ⟨hsize, hvalid⟩ := checkTask_ok.mp (htakes.tasks t ht)
    rw [h.parameterCount] at hsize hvalid
    exact ⟨hsize, (FisherTable.validate_iff (hordered t ht)).mp hvalid, .inr ⟨r, hr, ht⟩⟩

/-- One of the calls leaves all tasks accounted for. -/
theorem Accounted.serve (h : k.Accounted count calls) {call : Call} (hmem : call ∈ calls) (hcall : call.Ordered) :
    (k.serve call).2.Accounted count calls := by
  cases call with
  | consolidate id name optimal fisher importance tick =>
    simp only [Consolidator.serve]
    split
    · next hk => exact h.consolidate hcall hk
    · exact h
  | remove id =>
    simp only [Consolidator.serve, Consolidator.remove]
    split
    · exact h
    · exact ⟨h.parameterCount, fun t ht => h.tasks t (List.mem_of_mem_eraseIdx ht)⟩
  | clear => exact ⟨h.parameterCount, fun t ht => by cases ht⟩
  | restore r =>
    simp only [Consolidator.serve]
    split
    · next hk => exact h.restore hmem hcall hk
    · exact h

/-- So do any of them in turn. -/
theorem Accounted.run (h : k.Accounted count calls) {served : List Call} (hserved : ∀ call ∈ served, call ∈ calls)
    (hordered : ∀ call ∈ served, call.Ordered) : (k.run served).Accounted count calls := by
  -- The tasks are accounted for by all calls at once, so that what is still to be served does not matter.
  induction served generalizing k with
  | nil => exact h
  | cons call rest ih =>
    obtain ⟨hfirst, hrest⟩ := List.forall_mem_cons.mp hserved
    obtain ⟨hcall, hothers⟩ := List.forall_mem_cons.mp hordered
    exact ih (h.serve hfirst hcall) hrest hothers

theorem accounted_ofConfig (hk : ofConfig count c = .ok k) (calls : List Call) : k.Accounted count calls := by
  refine ⟨(fits_ofConfig hk).parameterCount, fun t ht => ?_⟩
  rw [tasks_ofConfig hk] at ht
  cases ht

/-! ### What is put back -/

/-- The record with other importances. -/
def reweighed (r : ConsolidatorRecord) (weigh : Task Float32 → Float32) : ConsolidatorRecord :=
  { r with tasks := r.tasks.map fun t => { t with importance := weigh t } }

theorem Takes.reweighed {r : ConsolidatorRecord} (h : k.Takes r) (weigh : Task Float32 → Float32) :
    k.Takes (reweighed r weigh) where
  parameterCount := h.parameterCount
  room := Nat.le_trans (Nat.le_of_eq (List.length_map _)) h.room
  tasks := by
    intro t ht
    obtain ⟨u, hu, rfl⟩ := List.mem_map.mp ht
    exact h.tasks u hu

/-- Importances are not looked at when tasks are put back, and are kept as they were recorded. -/
theorem restore_reweighed {r : ConsolidatorRecord} (hk : k.restore r = .ok k') (weigh : Task Float32 → Float32) :
    k.restore (reweighed r weigh) = .ok { k' with tasks := (reweighed r weigh).tasks } := by
  have htakes := takes_of_restore hk
  rw [htakes.restore_eq] at hk
  obtain ⟨lambda, hlambda, hk⟩ := ok_of_bind hk
  have hlambda : between k.minLambda k.maxLambda r.lambda = .ok lambda := hlambda
  cases hk
  rw [(htakes.reweighed weigh).restore_eq]
  show (between k.minLambda k.maxLambda r.lambda >>= fun lambda => _) = _
  rw [hlambda]
  rfl

/-! ### Runs -/

theorem Stored.covers (h : Stored count calls t) : t.covers count = true := by
  simp only [Task.covers, List.all_eq_true, Bool.and_eq_true, decide_eq_true_eq, h.optimal]
  exact fun e he => ⟨h.fisher.places e he, h.fisher.places e he⟩

theorem Stored.weighs (h : Stored count calls t) (himportance : 0 ≤ t.importance) : t.Weighs where
  importance := Single.not_lt_of_le himportance
  fisher := fun e he => Single.not_lt_of_le (h.fisher.values e he).2

/-- Every derivative is by a parameter that a task was learned with, and going against it leads there. -/
theorem Accounted.gradient (h : k.Accounted count calls) (hweighs : ∀ t ∈ k.tasks, t.Weighs)
    (hlambda : ¬ k.lambda < 0) {current : Vec} (hcurrent : current.size = count) {u : Nat × Float32}
    (hu : u ∈ Penalty.gradient k.lambda k.tasks current) :
    ∃ t ∈ k.tasks, ∃ x y, current[u.1]? = some x ∧ t.optimal[u.1]? = some y ∧
      (0 < u.2 → y < x) ∧ (u.2 < 0 → x < y) := by
  obtain ⟨t, ht, hu⟩ := List.mem_flatMap.mp hu
  have hplace : u.1 < count := by
    obtain ⟨e, he, rfl⟩ := List.mem_map.mp hu
    exact (h.tasks t ht).fisher.places e he
  have hfound {v : Vec} (hv : v.size = count) : v[u.1]? = some (v.getD u.1 0) := by
    rw [Array.getD_eq_getD_getElem?, Array.getElem?_eq_getElem (hv ▸ hplace)]
    rfl
  exact ⟨t, ht, _, _, hfound hcurrent, hfound (h.tasks t ht).optimal, (hweighs t ht).gradient hlambda hu⟩

/-- **Importance is not negative unless it was restored.** After any `calls` to a new consolidator, every task of `k`
has `0 ≤ importance` or is a task of a record that was restored, and `restore` takes the importances of a record as
they are, whatever `weigh` puts there. If no record had a negative one, no task has; then, with `lambda` not negative
either, the value of `penalty` is not negative, and each entry of `penaltyGradient` that is positive or negative is at
a parameter that is above or below the optimal one of some task. -/
theorem importance_nonneg_unless_restored {k₀ : Consolidator} (hk₀ : ofConfig count c = .ok k₀)
    (hcalls : ∀ call ∈ calls, call.Ordered) (hk : k₀.run calls = k) :
    (∀ t ∈ k.tasks, 0 ≤ t.importance ∨ ∃ r, .restore r ∈ calls ∧ t ∈ r.tasks) ∧
    (∀ r k', k.restore r = .ok k' → ∀ weigh,
      k.restore (reweighed r weigh) = .ok { k' with tasks := (reweighed r weigh).tasks }) ∧
    ((∀ r, .restore r ∈ calls → ∀ t ∈ r.tasks, 0 ≤ t.importance) →
      (∀ t ∈ k.tasks, 0 ≤ t.importance) ∧
      (¬ k.lambda < 0 → ∀ current : Vec, current.size = count →
        (∃ report, k.penalty current = .ok report ∧ ¬ report.value < 0 ∧
          (report.value.isNaN = false → 0 ≤ report.value)) ∧
        ∃ gradient, k.penaltyGradient current = .ok gradient ∧ ∀ u ∈ gradient, ∃ t ∈ k.tasks, ∃ x y,
          current[u.1]? = some x ∧ t.optimal[u.1]? = some y ∧ (0 < u.2 → y < x) ∧ (u.2 < 0 → x < y))) := by
  have haccounted : k.Accounted count calls :=
    hk ▸ (accounted_ofConfig hk₀ calls).run (fun call hcall => hcall) hcalls
  refine ⟨fun t ht => (haccounted.tasks t ht).importance, fun r k' hr => restore_reweighed hr, fun hrecords => ?_⟩
  have himportance : ∀ t ∈ k.tasks, 0 ≤ t.importance := by
    intro t ht
    obtain h | ⟨r, hr, hmem⟩ := (haccounted.tasks t ht).importance
    · exact h
    · exact hrecords r hr t hmem
  refine ⟨himportance, fun hlambda current hcurrent => ?_⟩
  have hweighs : ∀ t ∈ k.tasks, t.Weighs := fun t ht => (haccounted.tasks t ht).weighs (himportance t ht)
  have hcovers : (k.tasks.all fun t => t.covers current.size) = true := by
    rw [hcurrent]
    exact List.all_eq_true.mpr fun t ht => (haccounted.tasks t ht).covers
  have hvalue := Penalty.not_neg_report hweighs hlambda current
  refine ⟨⟨_, if_pos hcovers, hvalue, fun hnan => Single.le_of_not_lt rfl hnan hvalue⟩, _, if_pos hcovers, ?_⟩
  exact fun u hu => haccounted.gradient hweighs hlambda hcurrent hu

/-- A task that was stored attracts; put back with an importance below zero, it repels. -/
theorem importance_nonneg_unless_restored_reversed : ∃ k₀ k k' : Consolidator, ofConfig 2 {} = .ok k₀ ∧
    k₀.run [.consolidate ⟨0, 1⟩ "patrol" #[0, 0] ⟨2, [(0, 1)]⟩ 1 1] = k ∧ (∀ t ∈ k.tasks, 0 ≤ t.importance) ∧
    (∃ report, k.penalty #[1, 0] = .ok report ∧ ¬ report.value < 0) ∧
    k.restore (reweighed k.toRecord fun _ => -1) = .ok k' ∧ (∃ t ∈ k'.tasks, t.importance < 0) ∧
    ∃ report, k'.penalty #[1, 0] = .ok report ∧ report.value < 0 := by
  have hordered : ∀ call ∈ [Call.consolidate ⟨0, 1⟩ "patrol" #[0, 0] ⟨2, [(0, 1)]⟩ 1 1], call.Ordered :=
    List.forall_mem_singleton.mpr (List.pairwise_singleton _ _)
  have hbuilt : ofConfig 2 {} = .ok _ := rfl
  obtain ⟨-, hreweighed, hgood⟩ := importance_nonneg_unless_restored hbuilt hordered rfl
  obtain ⟨himportance, hpenalty⟩ := hgood fun r hr => by cases List.mem_singleton.mp hr
  obtain ⟨report, hreport, hvalue, -⟩ := (hpenalty (by decide) #[1, 0] rfl).1
  refine ⟨_, _, _, hbuilt, rfl, himportance, ⟨report, hreport, hvalue⟩, hreweighed _ _ rfl _, ?_, _, rfl, by decide⟩
  exact ⟨_, List.mem_singleton_self _, by decide⟩

end Consolidator

end NpcMind
