import NpcMind.Proofs.Acceptance

/-!
# The list of tasks

A consolidator is asked to store tasks, to take them out one by one or all at once, and to take over what was
saved. `Consolidator.serve` answers one call and `Consolidator.run` a sequence of them. Whatever the calls bring,
there are never more tasks than there is room for, and every one of them is about the consolidator's parameters.
Tables are looked at by their last entry alone, so this rests on their entries being in order.

It follows that the penalty and its gradient find a parameter for each entry of each task, and that both look at
every entry once.
-/

namespace NpcMind

open Outcome Layout

/-! ### Counting the entries that are looked at -/

section

variable {α β γ : Type}

/-- A loop whose every turn adds to a counter counts up what all turns add. -/
theorem foldl_counts (counter : γ → Nat) (weight : β → Nat) {turn : γ → β → γ}
    (hturn : ∀ x b, counter (turn x b) = counter x + weight b) (l : List β) (x : γ) :
    counter (l.foldl turn x) = counter x + l.foldr (fun b n => weight b + n) 0 := by
  induction l generalizing x with
  | nil => rfl
  | cons b rest ih =>
    rw [List.foldl_cons, ih, hturn, List.foldr_cons]
    omega

theorem foldr_one (l : List β) : l.foldr (fun _ n => 1 + n) 0 = l.length := by
  induction l with
  | nil => rfl
  | cons b rest ih =>
    rw [List.foldr_cons, ih, List.length_cons]
    omega

variable [OfNat α 0] [Add α] [Sub α] [Mul α]

theorem Task.visited_drift (t : Task α) (current : Array α) : (t.drift current).2 = t.fisher.size := by
  rw [Task.drift, foldl_counts Prod.snd (fun _ => 1) fun _ _ => rfl, foldr_one]
  exact Nat.zero_add _

theorem Penalty.visited_report (lambda : α) (tasks : List (Task α)) (current : Array α) :
    (report lambda tasks current).visited = entryCount tasks := by
  show (drifts tasks current).2 = entryCount tasks
  rw [drifts, foldl_counts Prod.snd fun t : Task α => t.fisher.size]
  · exact Nat.zero_add _
  · intro total t
    exact congrArg (total.2 + ·) (t.visited_drift current)

variable [OfNat α 2]

omit [Add α] in
theorem Penalty.length_gradient (lambda : α) (tasks : List (Task α)) (current : Array α) :
    (gradient lambda tasks current).length = entryCount tasks := by
  induction tasks with
  | nil => rfl
  | cons t rest ih =>
    rw [gradient, List.flatMap_cons, List.length_append]
    exact congrArg₂ (· + ·) (List.length_map _) ih

theorem Penalty.visited_addGradient (lambda : α) (tasks : List (Task α)) (current start : Array α) :
    (addGradient lambda tasks current start).1 = entryCount tasks := by
  rw [addGradient, foldl_counts Prod.fst (fun _ => 1) fun _ _ => rfl, foldr_one,
    length_gradient]
  exact Nat.zero_add _

end

/-! ### A parameter for each entry -/

namespace Task

variable {α : Type} {t : Task α} {count : Nat}

/-- The task was learned with that many parameters, and there is one for each of its entries. -/
structure Spans (count : Nat) (t : Task α) : Prop where
  optimal : t.optimal.size = count
  places : ∀ e ∈ t.fisher.entries, e.1 < count

theorem Spans.covers (h : t.Spans count) : t.covers count = true := by
  simp only [Task.covers, List.all_eq_true, Bool.and_eq_true, decide_eq_true_eq, h.optimal]
  exact fun e he => ⟨h.places e he, h.places e he⟩

end Task

namespace Consolidator

variable {count : Nat} {c : Config.Consolidation} {k k' : Consolidator}

/-! ### The task to be given up -/

/-- The task `t` at place `i` is to be given up before the task `u` at place `j`: importance is compared by
`Single.rank`, where `NaN` comes after every number, and what is alike by `createdTick` and then by place. -/
def GoesFirst (policy : PrunePolicy) (t : Task Float32) (i : Nat) (u : Task Float32) (j : Nat) : Prop :=
  match policy with
  | .leastImportant =>
    Single.rank t.importance < Single.rank u.importance ∨
      Single.rank t.importance = Single.rank u.importance ∧
        (t.createdTick < u.createdTick ∨ t.createdTick = u.createdTick ∧ i < j)
  | .oldest => t.createdTick < u.createdTick ∨ t.createdTick = u.createdTick ∧ i < j

/-- The order in which tasks are compared. -/
def orderOf : PrunePolicy → Task Float32 → Task Float32 → Bool
  | .leastImportant => lessImportant
  | .oldest => older

theorem victim?_eq (k : Consolidator) :
    k.victim? = (best? (orderOf k.prunePolicy) k.tasks).map Prod.fst := by
  unfold victim?
  cases k.prunePolicy <;> exact leastBy_eq _ _

theorem older_iff {t u : Task Float32} : older t u = true ↔ t.createdTick < u.createdTick := by
  rw [older, decide_eq_true_eq]

theorem not_older_iff {t u : Task Float32} : older t u = false ↔ u.createdTick ≤ t.createdTick := by
  rw [older, decide_eq_false_iff_not, UInt64.not_lt]

theorem ranks_older : Ranks older where
  asymm h := not_older_iff.mpr (UInt64.le_of_lt (older_iff.mp h))
  between {t v} h u := by
    rw [older_iff, UInt64.lt_iff_toNat_lt] at *
    rw [older_iff, UInt64.lt_iff_toNat_lt]
    omega

theorem lessImportant_iff {t u : Task Float32} : lessImportant t u = true ↔
    Single.rank t.importance < Single.rank u.importance ∨
      Single.rank t.importance = Single.rank u.importance ∧ t.createdTick < u.createdTick := by
  simp only [lessImportant, older, Bool.or_eq_true, Bool.and_eq_true, decide_eq_true_eq, beq_iff_eq]

theorem ranks_lessImportant : Ranks lessImportant where
  asymm {t u} h := by
    rw [← Bool.not_eq_true]
    simp only [lessImportant_iff, UInt32.lt_iff_toNat_lt, UInt64.lt_iff_toNat_lt, ← UInt32.toNat_inj] at h ⊢
    omega
  between {t v} h u := by
    simp only [lessImportant_iff, UInt32.lt_iff_toNat_lt, UInt64.lt_iff_toNat_lt, ← UInt32.toNat_inj] at h ⊢
    omega

theorem ranks_orderOf (policy : PrunePolicy) : Ranks (orderOf policy) := by
  cases policy with
  | leastImportant => exact ranks_lessImportant
  | oldest => exact ranks_older

theorem goesFirst_of_less {policy : PrunePolicy} {t u : Task Float32} (h : orderOf policy t u = true)
    (i j : Nat) : GoesFirst policy t i u j := by
  cases policy with
  | leastImportant =>
    rcases lessImportant_iff.mp h with hless | ⟨heq, hless⟩
    · exact .inl hless
    · exact .inr ⟨heq, .inl hless⟩
  | oldest => exact .inl (older_iff.mp h)

/-- Of two tasks that compare alike, the one in front goes first. -/
theorem goesFirst_of_not_less {policy : PrunePolicy} {t u : Task Float32} (h : orderOf policy u t = false)
    {i j : Nat} (hij : i < j) : GoesFirst policy t i u j := by
  cases policy with
  | leastImportant =>
    show _ ∨ _ ∧ (_ ∨ _ ∧ i < j)
    have hnot : ¬ lessImportant u t = true := by
      rw [Bool.not_eq_true]
      exact h
    rw [lessImportant_iff] at hnot
    simp only [UInt32.lt_iff_toNat_lt, UInt64.lt_iff_toNat_lt, ← UInt32.toNat_inj, ← UInt64.toNat_inj] at hnot ⊢
    omega
  | oldest =>
    show _ ∨ _ ∧ i < j
    have hle := not_older_iff.mp h
    simp only [UInt64.le_iff_toNat_le, UInt64.lt_iff_toNat_lt, ← UInt64.toNat_inj] at hle ⊢
    omega

/-- The task to be given up next goes before every other. -/
theorem victim_first (hne : k.tasks ≠ []) : ∃ before t after, k.tasks = before ++ t :: after ∧
    k.victim? = some before.length ∧
    ∀ j u, j ≠ before.length → k.tasks[j]? = some u → GoesFirst k.prunePolicy t before.length u j := by
  obtain ⟨hnil, -⟩ | ⟨before, t, after, htasks, hbest, hleast⟩ :=
    best?_spec (ranks_orderOf k.prunePolicy) k.tasks
  · exact absurd hnil hne
  · refine ⟨before, t, after, htasks, by rw [victim?_eq, hbest]; rfl, fun j u hj hu => ?_⟩
    rw [htasks] at hu
    by_cases hlt : j < before.length
    · rw [List.getElem?_append_left hlt] at hu
      exact goesFirst_of_less (hleast.front u (List.mem_of_getElem? hu)) _ _
    · obtain ⟨d, rfl⟩ : ∃ d, j = before.length + (d + 1) := ⟨j - before.length - 1, by omega⟩
      rw [List.getElem?_append_right (by omega), Nat.add_sub_cancel_left, List.getElem?_cons_succ] at hu
      exact goesFirst_of_not_less (hleast.behind u (List.mem_of_getElem? hu)) (by omega)

/-- Room is made by giving up one task, and only if there is none. -/
theorem Fits.makeRoom_cases (h : k.Fits count c) (hmax : 0 < c.maxTasks) :
    k.tasks.length < c.maxTasks ∧ k.makeRoom = (none, k) ∨
      k.tasks.length = c.maxTasks ∧ ∃ before t after, k.tasks = before ++ t :: after ∧
        k.makeRoom = (some t, { k with tasks := before ++ after }) ∧
        ∀ j u, j ≠ before.length → k.tasks[j]? = some u → GoesFirst c.prunePolicy t before.length u j := by
  have hroom := h.room
  by_cases hlt : k.tasks.length < c.maxTasks
  · exact .inl ⟨hlt, by rw [Consolidator.makeRoom, h.maxTasks, if_pos hlt]⟩
  · have hfull : k.tasks.length = c.maxTasks := by omega
    obtain ⟨before, t, after, htasks, hvictim, hfirst⟩ :=
      victim_first (k := k) (List.ne_nil_of_length_pos (by omega))
    refine .inr ⟨hfull, before, t, after, htasks, ?_, h.prunePolicy ▸ hfirst⟩
    have ht : k.tasks[before.length]? = some t := by
      rw [htasks, List.getElem?_append_right (Nat.le_refl _), Nat.sub_self]
      rfl
    have herase : k.tasks.eraseIdx before.length = before ++ after := by
      rw [htasks, List.eraseIdx_append_of_length_le (Nat.le_refl _), Nat.sub_self]
      rfl
    rw [Consolidator.makeRoom, h.maxTasks, if_neg hlt, hvictim]
    simp only [ht, herase]

/-! ### Calls -/

/-- What can be asked of a consolidator about its tasks. -/
inductive Call where
  | consolidate (id : Uuid) (name : String) (optimal : Vec) (fisher : FisherTable Float32) (importance : Float32)
      (tick : UInt64)
  | remove (id : Uuid)
  | clear
  | restore (r : ConsolidatorRecord)

/-- The entries of the tables that a call brings ascend, as those of every table do that was built or read. -/
def Call.Ordered : Call → Prop
  | .consolidate _ _ _ fisher _ _ => Sparse.Ascending fisher.entries
  | .restore r => ∀ t ∈ r.tasks, Sparse.Ascending t.fisher.entries
  | _ => True

/-- What a call brings is about that many parameters, and there is room for it. -/
def Call.Suits (count maxTasks : Nat) : Call → Prop
  | .consolidate _ _ optimal fisher _ _ => optimal.size = count ∧ fisher.Suits count
  | .restore r => r.Suits count maxTasks
  | _ => True

/-- The task that a call takes out, and the consolidator after it. -/
def serve (k : Consolidator) : Call → Outcome (Option (Task Float32)) × Consolidator
  | .consolidate id name optimal fisher importance tick =>
    match k.consolidate id name optimal fisher importance tick with
    | .ok (pruned, k) => (.ok pruned, k)
    | .error e => (.error e, k)
  | .remove id => (.ok (k.remove id).1, (k.remove id).2)
  | .clear => (.ok none, k.clear)
  | .restore r =>
    match k.restore r with
    | .ok k => (.ok none, k)
    | .error e => (.error e, k)

/-- The consolidator after calls in turn, those that failed included. -/
def run (k : Consolidator) (calls : List Call) : Consolidator := calls.foldl (fun k call => (k.serve call).2) k

/-- The consolidator is of that configuration, and the entries of its tables ascend. -/
structure Kept (count : Nat) (c : Config.Consolidation) (k : Consolidator) : Prop where
  fits : k.Fits count c
  ordered : ∀ t ∈ k.tasks, Sparse.Ascending t.fisher.entries

theorem Kept.suits (h : k.Kept count c) : ∀ t ∈ k.tasks, t.optimal.size = count ∧ t.fisher.Suits count := by
  intro t ht
  obtain ⟨hsize, hvalid⟩ := h.fits.tasks t ht
  exact ⟨hsize, (FisherTable.validate_iff (h.ordered t ht)).mp hvalid⟩

/-- Fewer tasks, and other losses to compare with, do no harm. -/
theorem Kept.shrink (h : k.Kept count c) {tasks : List (Task Float32)} (hsub : tasks.Sublist k.tasks)
    (validation : Option Float32) :
    ({ k with tasks, previousValidation := validation } : Consolidator).Kept count c where
  fits := { h.fits with
    tasks := fun t ht => h.fits.tasks t (hsub.subset ht)
    room := Nat.le_trans hsub.length_le h.fits.room }
  ordered := fun t ht => h.ordered t (hsub.subset ht)

/-! ### Storing a task -/

section

variable {id : Uuid} {name : String} {optimal : Vec} {fisher : FisherTable Float32} {importance : Float32}
  {tick : UInt64} {pruned : Option (Task Float32)}

theorem consolidate_iff (h : k.Fits count c) (hf : Sparse.Ascending fisher.entries) (id : Uuid) (name : String)
    (importance : Float32) (tick : UInt64) :
    (∃ r, k.consolidate id name optimal fisher importance tick = .ok r) ↔
      optimal.size = count ∧ fisher.Suits count := by
  rw [← FisherTable.validate_iff hf, ← h.parameterCount]
  unfold Consolidator.consolidate
  dsimp only
  by_cases hsize : optimal.size = k.parameterCount
  · rw [if_neg fun hne => hne hsize]
    constructor
    · rintro ⟨r, hr⟩
      obtain ⟨_, hvalid, -⟩ := ok_of_bind hr
      exact ⟨hsize, hvalid⟩
    · rintro ⟨-, hvalid⟩
      rw [hvalid]
      exact ⟨_, rfl⟩
  · rw [if_pos hsize]
    constructor
    · rintro ⟨r, hr⟩
      cases hr
    · rintro ⟨heq, -⟩
      exact absurd heq hsize

theorem eq_of_consolidate (hk : k.consolidate id name optimal fisher importance tick = .ok (pruned, k')) :
    pruned = k.makeRoom.1 ∧ k' = { k.makeRoom.2 with
      tasks := k.makeRoom.2.tasks ++ [⟨id, name, optimal, fisher, Single.larger importance 0, tick⟩]
      consolidations := k.makeRoom.2.consolidations + 1 } := by
  unfold Consolidator.consolidate at hk
  dsimp only at hk
  split at hk
  · cases hk
  · obtain ⟨_, -, hk⟩ := ok_of_bind hk
    cases hk
    exact ⟨rfl, rfl⟩

/-- The second consolidator is the first one after storing a task: it is the last task, and one of the others
is gone if and only if there was no room. -/
def Stores (c : Config.Consolidation) (k : Consolidator) (new : Task Float32) (pruned : Option (Task Float32))
    (k' : Consolidator) : Prop :=
  ∃ kept, k' = { k with tasks := kept ++ [new], consolidations := k.consolidations + 1 } ∧
    (k.tasks.length < c.maxTasks ∧ pruned = none ∧ kept = k.tasks ∨
      k.tasks.length = c.maxTasks ∧ ∃ before t after, k.tasks = before ++ t :: after ∧ pruned = some t ∧
        kept = before ++ after ∧ ∀ j u, j ≠ before.length → k.tasks[j]? = some u →
          GoesFirst c.prunePolicy t before.length u j)

theorem Fits.stores (h : k.Fits count c) (hmax : 0 < c.maxTasks)
    (hk : k.consolidate id name optimal fisher importance tick = .ok (pruned, k')) :
    Stores c k ⟨id, name, optimal, fisher, Single.larger importance 0, tick⟩ pruned k' := by
  obtain ⟨rfl, rfl⟩ := eq_of_consolidate hk
  refine ⟨k.makeRoom.2.tasks, ?_⟩
  obtain ⟨hlt, hroom⟩ | ⟨hfull, before, t, after, htasks, hroom, hfirst⟩ := h.makeRoom_cases hmax
  · rw [hroom]
    exact ⟨rfl, .inl ⟨hlt, rfl, rfl⟩⟩
  · rw [hroom]
    exact ⟨rfl, .inr ⟨hfull, before, t, after, htasks, rfl, rfl, hfirst⟩⟩

theorem Kept.consolidate (h : k.Kept count c) (hmax : 0 < c.maxTasks) (hf : Sparse.Ascending fisher.entries)
    (hk : k.consolidate id name optimal fisher importance tick = .ok (pruned, k')) : k'.Kept count c := by
  refine ⟨h.fits.consolidate (by omega) hk, ?_⟩
  obtain ⟨kept, rfl, hkept⟩ := h.fits.stores hmax hk
  have hsub : ∀ t ∈ kept, t ∈ k.tasks := by
    intro t ht
    obtain ⟨-, -, rfl⟩ | ⟨-, before, u, after, htasks, -, rfl, -⟩ := hkept
    · exact ht
    · rw [htasks]
      rcases List.mem_append.mp ht with ht | ht
      · exact List.mem_append_left _ ht
      · exact List.mem_append_right _ (List.mem_cons_of_mem u ht)
  intro t ht
  rcases List.mem_append.mp ht with ht | ht
  · exact h.ordered t (hsub t ht)
  · rw [List.mem_singleton.mp ht]
    exact hf

end

/-! ### Runs -/

theorem Kept.remove (h : k.Kept count c) (id : Uuid) : (k.remove id).2.Kept count c := by
  unfold Consolidator.remove
  split
  · exact h
  · exact h.shrink (List.eraseIdx_sublist _ _) k.previousValidation

theorem Kept.restore (h : k.Kept count c) {r : ConsolidatorRecord}
    (hr : ∀ t ∈ r.tasks, Sparse.Ascending t.fisher.entries) (hk : k.restore r = .ok k') : k'.Kept count c :=
  ⟨(h.fits.restore hk).1, (tasks_of_restore hk).symm ▸ hr⟩

/-- **One call** keeps the tasks valid, whether it succeeds or not. -/
theorem Kept.serve (h : k.Kept count c) (hmax : 0 < c.maxTasks) {call : Call} (hcall : call.Ordered) :
    (k.serve call).2.Kept count c := by
  cases call with
  | consolidate id name optimal fisher importance tick =>
    simp only [Consolidator.serve]
    split
    · next hk => exact h.consolidate hmax hcall hk
    · exact h
  | remove id => exact h.remove id
  | clear => exact h.shrink (List.nil_sublist _) none
  | restore r =>
    simp only [Consolidator.serve]
    split
    · next hk => exact h.restore hcall hk
    · exact h

/-- **Any sequence of calls** keeps the tasks valid. -/
theorem Kept.run (h : k.Kept count c) (hmax : 0 < c.maxTasks) {calls : List Call}
    (hcalls : ∀ call ∈ calls, call.Ordered) : (k.run calls).Kept count c := by
  induction calls generalizing k with
  | nil => exact h
  | cons call rest ih =>
    exact ih (h.serve hmax (hcalls call List.mem_cons_self)) fun q hq => hcalls q (List.mem_cons_of_mem call hq)

theorem kept_ofConfig (hk : ofConfig count c = .ok k) : k.Kept count c := by
  refine ⟨fits_ofConfig hk, ?_⟩
  obtain ⟨_, -, hk⟩ := ok_of_bind hk
  obtain ⟨_, -, hk⟩ := ok_of_bind hk
  cases hk
  intro t ht
  cases ht

/-- A call succeeds if and only if what it brings is about the consolidator's parameters. -/
theorem Kept.serve_iff (h : k.Kept count c) {call : Call} (hcall : call.Ordered) :
    (∃ out, (k.serve call).1 = .ok out) ↔ call.Suits count c.maxTasks := by
  cases call with
  | consolidate id name optimal fisher importance tick =>
    rw [Call.Suits, ← consolidate_iff h.fits hcall id name importance tick]
    simp only [Consolidator.serve]
    cases k.consolidate id name optimal fisher importance tick <;> simp
  | remove id => exact iff_of_true ⟨_, rfl⟩ trivial
  | clear => exact iff_of_true ⟨_, rfl⟩ trivial
  | restore r =>
    rw [Call.Suits, ← h.fits.restore_iff hcall]
    simp only [Consolidator.serve]
    cases k.restore r <;> simp

/-- A call that fails was refused: it breaks no precondition half-way, and leaves the consolidator alone. -/
theorem Kept.serve_error (h : k.Kept count c) {call : Call} {e : Error} (he : (k.serve call).1 = .error e) :
    (k.serve call).2 = k ∧ ∀ cause, e ≠ .fault cause := by
  cases call with
  | consolidate id name optimal fisher importance tick =>
    have hfails : FailsBy (fun e => ∀ cause, e ≠ .fault cause)
        (k.consolidate id name optimal fisher importance tick) := by
      unfold Consolidator.consolidate
      dsimp only
      split
      · exact failsBy_error (by simp)
      · exact (failsBy_validate (by simp) (by simp) (by simp) _ _).bind fun _ => failsBy_ok _
    simp only [Consolidator.serve] at he ⊢
    cases hk : k.consolidate id name optimal fisher importance tick with
    | ok r =>
      rw [hk] at he
      cases he
    | error e' =>
      rw [hk] at he
      cases he
      exact ⟨rfl, hfails e hk⟩
  | remove id => cases he
  | clear => cases he
  | restore r =>
    have hrange : FailsBy (fun e => ∀ cause, e ≠ .fault cause) (between k.minLambda k.maxLambda r.lambda) := by
      -- The range is not empty, as the consolidator's own lambda lies in it.
      have hlambda := h.fits.lambda
      rw [h.fits.minLambda, h.fits.maxLambda]
      unfold between at hlambda ⊢
      split at hlambda
      · next hle =>
        rw [if_pos hle]
        exact failsBy_ok _
      · cases hlambda
    have hfails := failsBy_restore (P := fun e => ∀ cause, e ≠ .fault cause) (r := r) (by simp) (by simp) (by simp)
      (by simp) hrange
    simp only [Consolidator.serve] at he ⊢
    cases hk : k.restore r with
    | ok k' =>
      rw [hk] at he
      cases he
    | error e' =>
      rw [hk] at he
      cases he
      exact ⟨rfl, hfails e hk⟩

/-! ### The penalty -/

theorem Kept.spans (h : k.Kept count c) : ∀ t ∈ k.tasks, t.Spans count := by
  intro t ht
  obtain ⟨hsize, hfisher⟩ := h.suits t ht
  exact ⟨hsize, hfisher.places⟩

/-- There is a parameter for each entry, and every entry is looked at once. -/
theorem Kept.penalty_ok (h : k.Kept count c) {current : Vec} (hcurrent : current.size = count) :
    (∃ report, k.penalty current = .ok report ∧ report.visited = k.entryCount) ∧
      (∃ gradient, k.penaltyGradient current = .ok gradient ∧ gradient.length = k.entryCount) ∧
      ∀ start : Vec, start.size = count →
        ∃ sum, k.addPenaltyGradient current start = .ok (k.entryCount, sum) := by
  have hcovers : (k.tasks.all fun t => t.covers current.size) = true := by
    rw [hcurrent]
    exact List.all_eq_true.mpr fun t ht => (h.spans t ht).covers
  refine ⟨⟨_, by rw [penalty, if_pos hcovers], Penalty.visited_report _ _ _⟩,
    ⟨_, by rw [penaltyGradient, if_pos hcovers], Penalty.length_gradient _ _ _⟩, fun start hstart => ?_⟩
  have hboth : (k.tasks.all fun t => t.covers current.size && t.covers start.size) = true := by
    rw [hcurrent, hstart]
    simp only [Bool.and_self]
    exact List.all_eq_true.mpr fun t ht => (h.spans t ht).covers
  refine ⟨(Penalty.addGradient k.lambda k.tasks current start).2, ?_⟩
  have hsize : expectSize "penalty gradient" k.parameterCount start.size = .ok () := by
    rw [h.fits.parameterCount, hstart, expectSize_ok]
  rw [addPenaltyGradient, hsize]
  simp only [bind, Except.bind]
  rw [if_pos hboth]
  exact congrArg Except.ok (Prod.ext (Penalty.visited_addGradient _ _ _ _) rfl)

/-- **The list of tasks stays valid through every run of calls.** Let `k` be what `run calls` makes of a new
consolidator of `count` parameters with `0 < c.maxTasks`. Then `k.tasks` has at most `c.maxTasks` tasks, each with
`count` optimal parameters and a table that `Suits count`. A further call succeeds if and only if it `Suits`; one that
fails leaves `k` as it is, with an error that is no fault. `consolidate` appends its task and adds one to
`consolidations`, and gives one task up if and only if `k` was full, the one that `GoesFirst` before every other under
`c.prunePolicy`, the rest keeping their order (`Stores`). For all parameters `current` of that count, `penalty`,
`penaltyGradient` and `addPenaltyGradient` succeed, and each visits `k.entryCount` entries. -/
theorem run_keeps_tasks (hmax : 0 < c.maxTasks) {k₀ : Consolidator} (hk₀ : ofConfig count c = .ok k₀)
    {calls : List Call} (hcalls : ∀ call ∈ calls, call.Ordered) (hk : k₀.run calls = k) :
    k.tasks.length ≤ c.maxTasks ∧ (∀ t ∈ k.tasks, t.optimal.size = count ∧ t.fisher.Suits count) ∧
      (∀ call : Call, call.Ordered → ((∃ out, (k.serve call).1 = .ok out) ↔ call.Suits count c.maxTasks) ∧
        ∀ e, (k.serve call).1 = .error e → (k.serve call).2 = k ∧ ∀ cause, e ≠ .fault cause) ∧
      (∀ id name optimal fisher importance tick pruned,
        (k.serve (.consolidate id name optimal fisher importance tick)).1 = .ok pruned →
          Stores c k ⟨id, name, optimal, fisher, Single.larger importance 0, tick⟩ pruned
            (k.serve (.consolidate id name optimal fisher importance tick)).2) ∧
      ∀ current : Vec, current.size = count →
        (∃ report, k.penalty current = .ok report ∧ report.visited = k.entryCount) ∧
          (∃ gradient, k.penaltyGradient current = .ok gradient ∧ gradient.length = k.entryCount) ∧
          ∀ start : Vec, start.size = count →
            ∃ sum, k.addPenaltyGradient current start = .ok (k.entryCount, sum) := by
  have hkept : k.Kept count c := hk ▸ (kept_ofConfig hk₀).run hmax hcalls
  refine ⟨hkept.fits.room, hkept.suits, fun call hcall => ⟨hkept.serve_iff hcall, fun e => hkept.serve_error⟩,
    fun id name optimal fisher importance tick pruned hout => ?_, fun current => hkept.penalty_ok⟩
  simp only [serve] at hout ⊢
  cases hstored : k.consolidate id name optimal fisher importance tick with
  | error e =>
    rw [hstored] at hout
    cases hout
  | ok r =>
    rw [hstored] at hout
    cases hout
    exact hkept.fits.stores hmax hstored

/-- A record of two tasks, the first of which has an importance that is `NaN`. -/
def unranked : ConsolidatorRecord where
  parameterCount := 2
  lambda := 400
  previousValidation := none
  consolidations := 2
  tasks := [⟨⟨0, 1⟩, "patrol", #[0, 0], ⟨2, [(1, 1)]⟩, 0 / 0, 1⟩, ⟨⟨0, 2⟩, "guard", #[0, 0], ⟨2, []⟩, 8, 2⟩]

/-- With room for two tasks, a third one takes the place of the second: `NaN` comes after its importance. -/
theorem run_keeps_tasks_when_full : ∃ k₀ k : Consolidator, ofConfig 2 { maxTasks := 2 } = .ok k₀ ∧
    k₀.run [.restore unranked] = k ∧ k.tasks.map Task.name = ["patrol", "guard"] ∧
    (∃ report, k.penalty #[1, 1] = .ok report ∧ report.visited = k.entryCount) ∧
    ∃ t, (k.serve (.consolidate ⟨0, 3⟩ "trade" #[0, 0] ⟨2, []⟩ 0 3)).1 = .ok (some t) ∧ t.name = "guard" ∧
      Stores { maxTasks := 2 } k ⟨⟨0, 3⟩, "trade", #[0, 0], ⟨2, []⟩, 0, 3⟩ (some t)
        (k.serve (.consolidate ⟨0, 3⟩ "trade" #[0, 0] ⟨2, []⟩ 0 3)).2 := by
  have hordered : ∀ call ∈ [Call.restore unranked], call.Ordered := by
    intro call hcall
    rw [List.mem_singleton.mp hcall]
    show ∀ t ∈ unranked.tasks, Sparse.Ascending t.fisher.entries
    simp [unranked, Sparse.Ascending]
  refine ⟨_, _, rfl, rfl, rfl, ?_⟩
  obtain ⟨-, -, -, hstores, hpenalty⟩ := run_keeps_tasks (c := { maxTasks := 2 }) (by decide)
    (show ofConfig 2 { maxTasks := 2 } = .ok _ from rfl) hordered rfl
  exact ⟨(hpenalty #[1, 1] rfl).1, _, rfl, rfl, hstores ⟨0, 3⟩ "trade" #[0, 0] ⟨2, []⟩ 0 3 _ rfl⟩

end Consolidator

end NpcMind
