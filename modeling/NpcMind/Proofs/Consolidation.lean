import NpcMind.Consolidation.Accumulator
import NpcMind.Consolidation.Consolidator
import NpcMind.Proofs.Layout
import NpcMind.Proofs.Outcome
import NpcMind.Proofs.Singles
import NpcMind.Proofs.SparseEntries

/-!
# What was consolidated stays valid

A consolidator never has more tasks than there is room for, all of them are about its parameters, and its
lambda lies in its range. The sums of an accumulator are sums of squares. So both can be saved and put
back: a consolidator takes its own tasks again, and a sum that was left out because it is zero is the zero
that it is put back as.
-/

namespace NpcMind

open Outcome

namespace Consolidator

variable {count : Nat} {c : Config.Consolidation} {k k' k₀ : Consolidator}

/-- The consolidator is of that configuration and about that many parameters. -/
structure Fits (count : Nat) (c : Config.Consolidation) (k : Consolidator) : Prop where
  parameterCount : k.parameterCount = count
  maxTasks : k.maxTasks = c.maxTasks
  minLambda : k.minLambda = c.minLambda
  maxLambda : k.maxLambda = c.maxLambda
  lambdaDecay : k.lambdaDecay = c.lambdaDecay
  prunePolicy : k.prunePolicy = c.prunePolicy
  lambda : between c.minLambda c.maxLambda k.lambda = .ok k.lambda
  tasks : ∀ t ∈ k.tasks, t.optimal.size = count ∧ t.fisher.validate count = .ok ()
  room : k.tasks.length ≤ c.maxTasks

theorem between_between {lo hi x y : Float32} (h : between lo hi x = .ok y) : between lo hi y = .ok y := by
  unfold between at h ⊢
  split at h
  · next hle =>
    cases h
    rw [if_pos hle, Single.clamp_clamp hle]
  · cases h

theorem fits_ofConfig (h : ofConfig count c = .ok k) : k.Fits count c := by
  obtain ⟨_, -, h⟩ := ok_of_bind h
  obtain ⟨lambda, hlambda, h⟩ := ok_of_bind h
  cases h
  exact ⟨rfl, rfl, rfl, rfl, rfl, rfl, between_between hlambda, by simp, Nat.zero_le _⟩

/-! ### Making room -/

theorem leastBy_eq (less : Task Float32 → Task Float32 → Bool) (tasks : List (Task Float32)) :
    leastBy less tasks = (Layout.best? less tasks).map Prod.fst := by
  unfold leastBy Layout.best?
  refine congrArg (fun step => (tasks.zipIdx.foldl step none).map Prod.fst) ?_
  funext best e
  cases best <;> rfl

theorem leastBy_lt (less : Task Float32 → Task Float32 → Bool) {tasks : List (Task Float32)}
    (hne : tasks ≠ []) : ∃ i, leastBy less tasks = some i ∧ i < tasks.length := by
  refine Layout.foldl_pick (fun best e => ?_) (fun e he => ?_) (fun p hp => ?_) (.inl ?_)
  · cases best with
    | none => exact .inl rfl
    | some p =>
      dsimp only
      split
      · exact .inl rfl
      · exact .inr ⟨p, rfl, rfl⟩
  · exact List.snd_lt_of_mem_zipIdx he
  · cases hp
  · simpa using hne

theorem victim?_lt (hne : k.tasks ≠ []) : ∃ i, k.victim? = some i ∧ i < k.tasks.length := by
  unfold victim?
  cases k.prunePolicy with
  | leastImportant => exact leastBy_lt lessImportant hne
  | oldest => exact leastBy_lt older hne

/-- After making room there is room for one more task. -/
theorem Fits.makeRoom (h : k.Fits count c) (hmax : c.maxTasks ≠ 0) :
    k.makeRoom.2.Fits count c ∧ k.makeRoom.2.tasks.length < c.maxTasks := by
  unfold Consolidator.makeRoom
  split
  · next hroom => exact ⟨h, h.maxTasks ▸ hroom⟩
  · next hfull =>
    rw [h.maxTasks] at hfull
    have hroom := h.room
    obtain ⟨i, hi, hlt⟩ := victim?_lt (k := k) (List.ne_nil_of_length_pos (by omega))
    rw [hi]
    refine ⟨⟨h.parameterCount, h.maxTasks, h.minLambda, h.maxLambda, h.lambdaDecay, h.prunePolicy, h.lambda,
      fun t ht => h.tasks t (List.mem_of_mem_eraseIdx ht), ?_⟩, ?_⟩
    · simp only [List.length_eraseIdx_of_lt hlt]
      omega
    · simp only [List.length_eraseIdx_of_lt hlt]
      omega

theorem Fits.consolidate (h : k.Fits count c) (hmax : c.maxTasks ≠ 0) {id : Uuid} {name : String} {optimal : Vec}
    {fisher : FisherTable Float32} {importance : Float32} {tick : UInt64} {pruned : Option (Task Float32)}
    (hk : k.consolidate id name optimal fisher importance tick = .ok (pruned, k')) : k'.Fits count c := by
  unfold Consolidator.consolidate at hk
  dsimp only at hk
  split at hk
  · cases hk
  · next hsize =>
    obtain ⟨_, hfisher, hk⟩ := ok_of_bind hk
    cases hk
    obtain ⟨hroom, hlt⟩ := h.makeRoom hmax
    refine ⟨hroom.parameterCount, hroom.maxTasks, hroom.minLambda, hroom.maxLambda, hroom.lambdaDecay,
      hroom.prunePolicy, hroom.lambda, fun t ht => ?_, ?_⟩
    · rcases List.mem_append.mp ht with ht | ht
      · exact hroom.tasks t ht
      · obtain rfl := List.mem_singleton.mp ht
        exact ⟨h.parameterCount ▸ Decidable.not_not.mp hsize, h.parameterCount ▸ hfisher⟩
    · simp only [List.length_append, List.length_singleton]
      omega

/-! ### Saving and putting back -/

theorem forM_ok {α : Type} {f : α → Outcome Unit} {l : List α} :
    l.forM f = .ok () ↔ ∀ x ∈ l, f x = .ok () := by
  induction l with
  | nil => exact ⟨fun _ x hx => by simp at hx, fun _ => rfl⟩
  | cons x rest ih =>
    have hcons : (x :: rest).forM f = f x >>= fun _ => rest.forM f := rfl
    constructor
    · intro h y hy
      rw [hcons] at h
      obtain ⟨_, hx, hrest⟩ := ok_of_bind h
      rcases List.mem_cons.mp hy with rfl | hy
      · exact hx
      · exact ih.mp hrest y hy
    · intro h
      rw [hcons, h x List.mem_cons_self]
      exact ih.mpr fun y hy => h y (List.mem_cons_of_mem x hy)

theorem checkTask_ok {t : Task Float32} : k.checkTask t = .ok () ↔
    t.optimal.size = k.parameterCount ∧ t.fisher.validate k.parameterCount = .ok () := by
  unfold checkTask
  dsimp only
  split
  · next hne => exact ⟨(nomatch ·), fun h => absurd h.1 hne⟩
  · next heq => exact ⟨fun h => ⟨Decidable.not_not.mp heq, h⟩, fun h => h.2⟩

theorem tasks_of_restore {r : ConsolidatorRecord} (h : k₀.restore r = .ok k) : k.tasks = r.tasks := by
  unfold Consolidator.restore at h
  dsimp only at h
  split at h
  · cases h
  · split at h
    · cases h
    · obtain ⟨_, -, h⟩ := ok_of_bind h
      obtain ⟨lambda, -, h⟩ := ok_of_bind h
      cases h
      rfl

theorem Fits.restore (h : k₀.Fits count c) {r : ConsolidatorRecord} (hr : k₀.restore r = .ok k) :
    k.Fits count c ∧ r.parameterCount = count := by
  unfold Consolidator.restore at hr
  dsimp only at hr
  split at hr
  · cases hr
  · next hcount =>
    split at hr
    · cases hr
    · next hroom =>
      obtain ⟨_, htasks, hr⟩ := ok_of_bind hr
      obtain ⟨lambda, hlambda, hr⟩ := ok_of_bind hr
      cases hr
      have hcount : r.parameterCount = count := h.parameterCount ▸ Decidable.not_not.mp hcount
      rw [h.minLambda, h.maxLambda] at hlambda
      refine ⟨⟨h.parameterCount, h.maxTasks, h.minLambda, h.maxLambda, h.lambdaDecay, h.prunePolicy,
        between_between hlambda, fun t ht => ?_, ?_⟩, hcount⟩
      · exact h.parameterCount ▸ checkTask_ok.mp (forM_ok.mp htasks t ht)
      · exact h.maxTasks ▸ Nat.not_lt.mp hroom

/-- A consolidator that was saved is put back as it was. -/
theorem Fits.restore_toRecord (h : k.Fits count c) (h₀ : k₀.Fits count c) :
    k₀.restore k.toRecord = .ok k := by
  have hcount : k.toRecord.parameterCount = k₀.parameterCount := h.parameterCount.trans h₀.parameterCount.symm
  have hroom : ¬ k.toRecord.tasks.length > k₀.maxTasks := by
    rw [h₀.maxTasks]
    exact Nat.not_lt.mpr h.room
  have htasks : k.toRecord.tasks.forM k₀.checkTask = .ok () :=
    forM_ok.mpr fun t ht => checkTask_ok.mpr (h₀.parameterCount ▸ h.tasks t ht)
  have hlambda : between c.minLambda c.maxLambda k.toRecord.lambda = .ok k.lambda := h.lambda
  unfold Consolidator.restore
  dsimp only
  rw [if_neg fun hne => hne hcount, if_neg hroom, htasks]
  simp only [bind, Except.bind, setLambda, hlambda, h₀.parameterCount, h₀.maxTasks, h₀.minLambda,
    h₀.maxLambda, h₀.lambdaDecay, h₀.prunePolicy]
  rw [← h.parameterCount, ← h.maxTasks, ← h.minLambda, ← h.maxLambda, ← h.lambdaDecay, ← h.prunePolicy]
  rfl

end Consolidator

namespace Accumulator

variable {count : Nat} {a a₀ : Accumulator}

/-- There is a sum for each parameter, and none has a sign. -/
structure Fits (count : Nat) (a : Accumulator) : Prop where
  size : a.sums.size = count
  unsigned : ∀ x ∈ a.sums, Single.Unsigned x

theorem fits_ofCount (count : Nat) : (ofCount count).Fits count where
  size := Array.size_replicate
  unsigned := by
    intro x hx
    rw [(Array.mem_replicate.mp hx).2]
    exact Single.unsigned_zero

theorem Fits.add (h : a.Fits count) (i : Nat) (g : Float32) : (a.add i g).Fits count := by
  unfold Accumulator.add
  split
  · refine ⟨by simp only [Array.size_modify, h.size], fun x hx => ?_⟩
    obtain ⟨j, hj, rfl⟩ := Array.getElem_of_mem hx
    rw [Array.size_modify] at hj
    rw [Array.getElem_modify]
    split
    · exact Single.unsigned_add (h.unsigned _ (Array.getElem_mem hj)) (Single.unsigned_mul_self g)
    · exact h.unsigned _ (Array.getElem_mem hj)
  · exact h

theorem Fits.addAll (h : a.Fits count) (gradient : List (Nat × Float32)) :
    (a.addAll gradient).Fits count := by
  unfold Accumulator.addAll
  induction gradient generalizing a with
  | nil => exact h
  | cons e rest ih => exact ih (h.add e.1 e.2)

theorem Fits.reset (h : a.Fits count) : a.reset = ofCount count := by
  rw [Accumulator.reset, parameterCount, h.size]

/-! ### Saving and putting back -/

theorem size_addAll (a : Accumulator) (gradient : List (Nat × Float32)) :
    (a.addAll gradient).sums.size = a.sums.size := by
  unfold addAll
  induction gradient generalizing a with
  | nil => rfl
  | cons u rest ih =>
    refine (ih (a.add u.1 u.2)).trans ?_
    unfold add
    split
    · exact Array.size_modify
    · rfl

/-- The sums that are not zero with their places, from a number on. -/
def entriesFrom (sums : List Float32) (n : Nat) : List (Nat × Float32) :=
  (sums.zipIdx n).filterMap fun e => if e.1 != 0 then some (e.2, e.1) else none

theorem entriesFrom_cons (x : Float32) (rest : List Float32) (n : Nat) :
    entriesFrom (x :: rest) n =
      if x != 0 then (n, x) :: entriesFrom rest (n + 1) else entriesFrom rest (n + 1) := by
  unfold entriesFrom
  rw [List.zipIdx_cons, List.filterMap_cons]
  by_cases hx : (x != 0) = true
  · simp only [hx, if_true]
  · simp only [hx, if_false, Bool.false_eq_true]

theorem ascending_entriesFrom (sums : List Float32) (n : Nat) :
    Sparse.Ascending (entriesFrom sums n) ∧ ∀ e ∈ entriesFrom sums n, n ≤ e.1 := by
  induction sums generalizing n with
  | nil => exact ⟨.nil, fun e he => by cases he⟩
  | cons x rest ih =>
    obtain ⟨hascending, hfrom⟩ := ih (n + 1)
    have hlater : ∀ e ∈ entriesFrom rest (n + 1), n < e.1 := fun e he => hfrom e he
    rw [entriesFrom_cons]
    split
    · refine ⟨List.pairwise_cons.mpr ⟨hlater, hascending⟩, fun e he => ?_⟩
      rcases List.mem_cons.mp he with rfl | he
      · exact Nat.le_refl n
      · exact Nat.le_of_lt (hlater e he)
    · exact ⟨hascending, fun e he => Nat.le_of_lt (hlater e he)⟩

theorem of_mem_entriesFrom {sums : List Float32} {e : Nat × Float32} (he : e ∈ entriesFrom sums 0) :
    sums[e.1]? = some e.2 ∧ (e.2 != 0) = true := by
  obtain ⟨⟨x, i⟩, hx, he⟩ := List.mem_filterMap.mp he
  obtain ⟨hne, he⟩ := Option.ite_none_right_eq_some.mp he
  cases he
  exact ⟨List.mem_zipIdx_iff_getElem?.mp hx, hne⟩

theorem toRecord_sums (a : Accumulator) : a.toRecord.sums =
    Sparse.ofEntries ((entriesFrom a.sums.toList 0).map fun e => (Sparse.key e.1, e.2)) := by
  rw [entriesFrom, List.map_filterMap]
  refine congrArg Sparse.ofEntries (List.filterMap_congr fun e _ => ?_)
  dsimp only
  split <;> rfl

/-- What is saved under a key is a sum that is not zero, of a place with that key. -/
theorem of_mem_toRecord {e : Nat × Float32} (he : e ∈ a.toRecord.sums) :
    ∃ i, a.sums[i]? = some e.2 ∧ (e.2 != 0) = true ∧ e.1 = Sparse.key i := by
  rw [toRecord_sums] at he
  obtain ⟨f, hf, rfl⟩ := List.mem_map.mp (Sparse.mem_of_mem_ofEntries he)
  obtain ⟨hsum, hne⟩ := of_mem_entriesFrom hf
  exact ⟨f.1, by rwa [Array.getElem?_toList] at hsum, hne, rfl⟩

/-- Up to `2 ^ 32` sums are saved with their places. -/
theorem toRecord_sums_of_le (h : a.sums.size ≤ UInt32.size) :
    a.toRecord.sums = entriesFrom a.sums.toList 0 := by
  have hkeys : (entriesFrom a.sums.toList 0).map (fun e => (Sparse.key e.1, e.2)) = entriesFrom a.sums.toList 0 := by
    refine (List.map_congr_left fun e he => ?_).trans (List.map_id _)
    obtain ⟨hlt, -⟩ := List.getElem?_eq_some_iff.mp (of_mem_entriesFrom he).1
    rw [Array.length_toList] at hlt
    exact Prod.ext (Sparse.key_of_lt (Nat.lt_of_lt_of_le hlt h)) rfl
  rw [toRecord_sums, hkeys, (ascending_entriesFrom a.sums.toList 0).1.ofEntries_eq]

/-- Saved entries that are written over zeros make up the sums again. -/
theorem foldl_entriesFrom {sums : List Float32} (hsums : ∀ x ∈ sums, Single.Unsigned x)
    {done : List Float32} {xs : Vec} (hxs : xs.toList = done ++ List.replicate sums.length 0) :
    ((entriesFrom sums done.length).foldl (fun xs e => xs.setIfInBounds e.1 e.2) xs).toList =
      done ++ sums := by
  induction sums generalizing done xs with
  | nil => exact hxs
  | cons x rest ih =>
    have hrest : ∀ y ∈ rest, Single.Unsigned y := fun y hy => hsums y (List.mem_cons_of_mem x hy)
    rw [List.length_cons, List.replicate_succ] at hxs
    have hlen : done.length + 1 = (done ++ [x]).length := by simp
    rw [entriesFrom_cons, hlen]
    split
    · rw [List.foldl_cons, ih hrest, List.append_assoc, List.singleton_append]
      rw [Array.toList_setIfInBounds, hxs, List.set_append_right _ _ (Nat.le_refl _), Nat.sub_self]
      simp
    · next hx =>
      -- A sum that was left out is a zero, and without a sign there is only one.
      have hzero : x = 0 := by
        refine Single.eq_zero_of_unsigned (hsums x List.mem_cons_self) ?_
        simpa [bne] using hx
      rw [ih hrest, List.append_assoc, List.singleton_append]
      rw [hxs, hzero]
      simp

/-- The accumulator with entries written over zeros. -/
def ofEntries (count : Nat) (r : AccumulatorRecord) : Accumulator where
  sums := r.sums.foldl (fun sums e => sums.setIfInBounds e.1 e.2) (Vec.zeros count)
  samples := r.samples

theorem restore_ok (h : a₀.Fits count) {r : AccumulatorRecord} (hr : ∀ e ∈ r.sums, e.1 < count) :
    a₀.restore r = .ok (ofEntries count r) := by
  unfold restore
  rw [parameterCount, h.size]
  split
  · next i x hlast =>
    have hlt : i < count := hr _ (List.mem_of_getLast? hlast)
    rw [if_neg (Nat.not_le.mpr hlt)]
    rfl
  · rfl

theorem eq_ofEntries {r : AccumulatorRecord} (hr : a₀.restore r = .ok a) : a = ofEntries a₀.parameterCount r := by
  unfold restore at hr
  split at hr
  · split at hr
    · cases hr
    · cases hr
      rfl
  · cases hr
    rfl

theorem eq_of_restore (h : a₀.Fits count) {r : AccumulatorRecord} (hr : a₀.restore r = .ok a) :
    a = ofEntries count r := by
  rw [eq_ofEntries hr, parameterCount, h.size]

theorem size_ofEntries (count : Nat) (r : AccumulatorRecord) : (ofEntries count r).sums.size = count := by
  have hfold (entries : List (Nat × Float32)) (xs : Vec) :
      (entries.foldl (fun sums e => sums.setIfInBounds e.1 e.2) xs).size = xs.size := by
    induction entries generalizing xs with
    | nil => rfl
    | cons e rest ih => rw [List.foldl_cons, ih, Array.size_setIfInBounds]
  exact (hfold r.sums _).trans Array.size_replicate

theorem fits_ofEntries (count : Nat) {r : AccumulatorRecord} (hr : ∀ e ∈ r.sums, Single.Unsigned e.2) :
    (ofEntries count r).Fits count := by
  have hfold : ∀ (entries : List (Nat × Float32)) (xs : Vec), (∀ e ∈ entries, Single.Unsigned e.2) →
      (∀ x ∈ xs, Single.Unsigned x) →
      ∀ x ∈ entries.foldl (fun sums e => sums.setIfInBounds e.1 e.2) xs, Single.Unsigned x := by
    intro entries
    induction entries with
    | nil => exact fun xs _ hxs => hxs
    | cons e rest ih =>
      intro xs hentries hxs
      refine ih _ (fun e' he' => hentries e' (List.mem_cons_of_mem e he')) fun x hx => ?_
      rcases Array.mem_or_eq_of_mem_setIfInBounds hx with hx | rfl
      · exact hxs x hx
      · exact hentries e List.mem_cons_self
  exact ⟨size_ofEntries count r, hfold r.sums (Vec.zeros count) hr (fits_ofCount count).unsigned⟩

theorem Fits.restore_ok (h : a.Fits count) (h₀ : a₀.Fits count) :
    a₀.restore a.toRecord = .ok (ofEntries count a.toRecord) := by
  refine Accumulator.restore_ok h₀ fun e he => ?_
  obtain ⟨i, hi, -, hkey⟩ := of_mem_toRecord he
  obtain ⟨hlt, -⟩ := Array.getElem?_eq_some_iff.mp hi
  rw [hkey, ← h.size]
  exact Nat.lt_of_le_of_lt (Sparse.key_le i) hlt

/-- An accumulator of up to `2 ^ 32` sums that was saved is put back as it was. -/
theorem Fits.ofEntries_toRecord (h : a.Fits count) (hcount : count ≤ UInt32.size) :
    ofEntries count a.toRecord = a := by
  have hzeros : (Vec.zeros count).toList = [] ++ List.replicate a.sums.toList.length 0 := by
    rw [Vec.zeros, Array.toList_replicate, Array.length_toList, h.size, List.nil_append]
  have hsums : (ofEntries count a.toRecord).sums = a.sums := by
    apply Array.toList_inj.mp
    rw [ofEntries, toRecord_sums_of_le (h.size ▸ hcount)]
    exact foldl_entriesFrom (fun x hx => h.unsigned x (Array.mem_toList_iff.mp hx)) hzeros
  calc ofEntries count a.toRecord
      = ⟨(ofEntries count a.toRecord).sums, a.samples⟩ := rfl
    _ = a := by rw [hsums]

theorem Fits.record_unsigned (h : a.Fits count) : ∀ e ∈ a.toRecord.sums, Single.Unsigned e.2 := by
  intro e he
  obtain ⟨i, hi, -⟩ := of_mem_toRecord he
  exact h.unsigned _ (Array.mem_of_getElem? hi)

end Accumulator

end NpcMind
