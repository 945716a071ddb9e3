import NpcMind.SlotPool
import Mathlib.Data.List.Nodup
import Mathlib.Data.List.Perm.Basic
import Mathlib.Data.List.Sigma

/-!
# Slot pools as finite maps

A pool is a finite map from handles to values: `get?` after `insert`, `set` and `remove` is `get?` before,
but for one handle. `Tight` is the invariant behind it: the free list names every slot without a value,
once. With it the number of values is the capacity without the free slots.
-/

namespace NpcMind.SlotPool

variable {α : Type} {p q : SlotPool α} {h k : Handle} {a b : α}

/-- The free list names every slot without a value, once. -/
structure Tight (p : SlotPool α) : Prop where
  nodup : p.free.Nodup
  mem_free : ∀ i, i ∈ p.free ↔ ∃ slot, p.slots[i]? = some slot ∧ slot.value = none

/-! ### Looking up -/

theorem get?_eq_some : p.get? h = some a ↔ p.slots[h.index]? = some ⟨h.generation, some a⟩ := by
  unfold get?
  rcases p.slots[h.index]? with _ | ⟨g, v⟩
  · simp
  · by_cases hg : g = h.generation <;> simp [hg]

theorem get_eq_ok : p.get h = .ok a ↔ p.get? h = some a := by
  unfold get
  cases p.get? h <;> simp

theorem contains_iff : p.contains h = true ↔ ∃ a, p.get? h = some a := by
  simp [contains, Option.isSome_iff_exists]

/-- A slot has one generation at a time, so good handles are told apart by their slots. -/
theorem eq_of_index (hh : p.get? h = some a) (hk : p.get? k = some b) (hi : h.index = k.index) : h = k := by
  rw [get?_eq_some] at hh hk
  rw [hi, hk] at hh
  obtain ⟨i, g⟩ := h
  obtain ⟨j, g'⟩ := k
  simp_all

theorem index_lt (hh : p.get? h = some a) : h.index < p.capacity := by
  rw [get?_eq_some] at hh
  exact (Array.getElem?_eq_some_iff.mp hh).1

/-! ### A pool without values -/

theorem get?_ofCapacity (name : String) (n : Nat) (h : Handle) :
    (ofCapacity name n : SlotPool α).get? h = none := by
  simp only [get?, ofCapacity, Array.getElem?_replicate]
  split <;> simp

theorem tight_ofCapacity (name : String) (n : Nat) : (ofCapacity name n : SlotPool α).Tight := by
  refine ⟨List.nodup_range, fun i => ?_⟩
  simp only [ofCapacity, List.mem_range, Array.getElem?_replicate]
  by_cases hi : i < n <;> simp [hi]

/-! ### Replacing a value -/

@[simp] theorem set_name : (p.set h a).name = p.name := by
  unfold set
  split <;> rfl

@[simp] theorem set_capacity : (p.set h a).capacity = p.capacity := by
  unfold set capacity
  split <;> simp

theorem set_of_get? (hh : p.get? h = some b) :
    p.set h a = { p with slots := p.slots.setIfInBounds h.index ⟨h.generation, some a⟩ } := by
  have hs := get?_eq_some.mp hh
  have hc : p.contains h = true := contains_iff.mpr ⟨b, hh⟩
  simp only [set, hc, if_true, mk.injEq, true_and, and_true]
  apply Array.ext_getElem?
  intro i
  rw [Array.getElem?_modify, Array.getElem?_setIfInBounds]
  by_cases hi : h.index = i
  · subst hi
    obtain ⟨hlt, hget⟩ := Array.getElem?_eq_some_iff.mp hs
    simp [hlt, hget]
  · simp [hi]

theorem set_of_stale (hh : p.get? h = none) : p.set h a = p := by
  simp [set, contains, hh]

theorem get?_set_self (hh : p.get? h = some b) : (p.set h a).get? h = some a := by
  have hs := get?_eq_some.mp hh
  rw [get?_eq_some, set_of_get? hh, Array.getElem?_setIfInBounds]
  simp [(Array.getElem?_eq_some_iff.mp hs).1]

theorem get?_set_of_ne (hk : k ≠ h) : (p.set h a).get? k = p.get? k := by
  cases hh : p.get? h with
  | none => rw [set_of_stale hh]
  | some b =>
    -- Another handle of the same slot is of another generation, and so stale before and after.
    have hs := get?_eq_some.mp hh
    rw [set_of_get? hh]
    simp only [get?, Array.getElem?_setIfInBounds]
    by_cases hi : h.index = k.index
    · have hg : h.generation ≠ k.generation := by
        intro hg
        obtain ⟨i, g⟩ := h
        obtain ⟨j, g'⟩ := k
        simp_all
      rw [if_pos hi, ← hi, hs]
      split <;> simp [hg]
    · simp [hi]

theorem get?_set : (p.set h a).get? k = if k = h then (p.get? h).map fun _ => a else p.get? k := by
  split
  · next hk =>
    subst hk
    cases hh : p.get? k with
    | none => rw [set_of_stale hh, hh]; rfl
    | some b => rw [get?_set_self hh]; rfl
  · next hk => exact get?_set_of_ne hk

/-- Replacing values neither adds nor removes any. -/
theorem isSome_get?_set : ((p.set h a).get? k).isSome = (p.get? k).isSome := by
  rw [get?_set]
  split
  · next hk => rw [hk, Option.isSome_map]
  · rfl

theorem Tight.set (hp : p.Tight) : (p.set h a).Tight := by
  cases hh : p.get? h with
  | none => rwa [set_of_stale hh]
  | some b =>
    have hs := get?_eq_some.mp hh
    rw [set_of_get? hh]
    refine ⟨hp.nodup, fun i => ?_⟩
    rw [hp.mem_free]
    simp only [Array.getElem?_setIfInBounds]
    by_cases hi : h.index = i
    · subst hi
      simp [hs]
    · simp [hi]

theorem set_get? (hh : p.get? h = some a) : p.set h a = p := by
  have hs := get?_eq_some.mp hh
  obtain ⟨name, slots, free⟩ := p
  rw [set_of_get? hh]
  simp only [mk.injEq, true_and, and_true]
  apply Array.ext_getElem?
  intro i
  rw [Array.getElem?_setIfInBounds]
  split
  · next hi =>
    subst hi
    simp_all [(Array.getElem?_eq_some_iff.mp hs).1]
  · rfl

/-- Replacements for two handles can be done in either order. -/
theorem set_comm (hk : h ≠ k) : (p.set h a).set k b = (p.set k b).set h a := by
  cases hh : p.get? h with
  | none =>
    have : (p.set k b).get? h = none := by rw [get?_set_of_ne hk, hh]
    rw [set_of_stale hh, set_of_stale this]
  | some c =>
    cases hk' : p.get? k with
    | none =>
      have : (p.set h a).get? k = none := by rw [get?_set_of_ne (Ne.symm hk), hk']
      rw [set_of_stale this, set_of_stale hk']
    | some d =>
      have hi : h.index ≠ k.index := fun hi => hk (eq_of_index hh hk' hi)
      have hh₂ : (p.set k b).get? h = some c := by rw [get?_set_of_ne hk, hh]
      have hk₂ : (p.set h a).get? k = some d := by rw [get?_set_of_ne (Ne.symm hk), hk']
      rw [set_of_get? hk₂, set_of_get? hh, set_of_get? hh₂, set_of_get? hk']
      simp only [mk.injEq, true_and, and_true]
      exact Array.setIfInBounds_comm _ _ hi

/-! ### Putting a value in -/

/-- What putting a value into a pool does. -/
structure Inserted (p : SlotPool α) (a : α) (h : Handle) (q : SlotPool α) : Prop where
  name : q.name = p.name
  capacity : q.capacity = p.capacity
  get? : ∀ k, q.get? k = if k = h then some a else p.get? k
  fresh : ∀ k b, p.get? k = some b → k.index ≠ h.index
  tight : q.Tight

/-- A handle is good when it is given out. -/
theorem Inserted.get?_self (hi : Inserted p a h q) : q.get? h = some a := by
  rw [hi.get?, if_pos rfl]

theorem Tight.inserted (hp : p.Tight) (hi : p.insert a = .ok (h, q)) : Inserted p a h q := by
  unfold insert at hi
  split at hi
  · cases hi
  · next i free hf =>
    obtain ⟨slot, hs, hv⟩ := (hp.mem_free i).mp (by simp [hf])
    obtain ⟨hlt, hget⟩ := Array.getElem?_eq_some_iff.mp hs
    obtain ⟨hnot, hnodup⟩ := List.nodup_cons.mp (hf ▸ hp.nodup)
    obtain ⟨g, v⟩ := slot
    simp only at hv
    subst hv
    simp only [hs] at hi
    cases hi
    refine ⟨rfl, by simp [SlotPool.capacity], fun k => ?_, fun k b hk hki => ?_, hnodup, fun j => ?_⟩
    · obtain ⟨j, g'⟩ := k
      simp only [SlotPool.get?, Array.getElem?_setIfInBounds, Handle.mk.injEq]
      by_cases hj : i = j
      · subst hj
        by_cases hg : g = g'
        · simp [hlt, hg]
        · have hg' : ¬ g' = g := fun h => hg h.symm
          simp [hlt, hget, hg, hg']
      · have hj' : ¬ j = i := fun h => hj h.symm
        simp [hj, hj']
    · rw [get?_eq_some, hki, hs] at hk
      simp at hk
    · have hmem := hp.mem_free j
      rw [hf, List.mem_cons] at hmem
      simp only [Array.getElem?_setIfInBounds]
      by_cases hj : i = j
      · subst hj
        simp [hnot, hlt]
      · have hj' : ¬ j = i := fun h => hj h.symm
        simpa [hj, hj'] using hmem

theorem insert_ok (hp : p.Tight) (hf : p.isFull = false) (a : α) : ∃ h q, p.insert a = .ok (h, q) := by
  unfold isFull at hf
  unfold insert
  cases hl : p.free with
  | nil => simp [hl] at hf
  | cons i free =>
    obtain ⟨slot, hs, -⟩ := (hp.mem_free i).mp (by simp [hl])
    simp [hs]

/-! ### Taking a value out -/

/-- What taking a value out of a pool does. -/
structure Removed (p : SlotPool α) (h : Handle) (q : SlotPool α) : Prop where
  name : q.name = p.name
  capacity : q.capacity = p.capacity
  get? : ∀ k, q.get? k = if k = h then none else p.get? k
  tight : q.Tight

theorem Tight.removed (hp : p.Tight) (hh : p.get? h = some a) :
    ∃ q, p.remove h = .ok (a, q) ∧ Removed p h q := by
  have hs := get?_eq_some.mp hh
  have hlt : h.index < p.slots.size := (Array.getElem?_eq_some_iff.mp hs).1
  unfold remove
  simp only [hh]
  refine ⟨_, rfl, rfl, by simp [SlotPool.capacity], fun k => ?_, ?_, fun i => ?_⟩
  · obtain ⟨i, g⟩ := h
    obtain ⟨j, g'⟩ := k
    simp only [SlotPool.get?, Array.getElem?_modify, Handle.mk.injEq]
    by_cases hj : i = j
    · subst hj
      by_cases hg : g = g'
      · simp_all
      · have hg' : ¬ g' = g := fun h => hg h.symm
        simp_all
    · have hj' : ¬ j = i := fun h => hj h.symm
      simp [hj, hj']
  · refine List.nodup_cons.mpr ⟨fun hm => ?_, hp.nodup⟩
    obtain ⟨slot, hslot, hv⟩ := (hp.mem_free _).mp hm
    rw [hs] at hslot
    cases hslot
    cases hv
  · rw [List.mem_cons, hp.mem_free]
    simp only [Array.getElem?_modify]
    by_cases hi : h.index = i
    · subst hi
      simp [hs]
    · have hi' : ¬ i = h.index := fun h => hi h.symm
      simp [hi, hi']

/-! ### Counting -/

theorem mem_entries : (h, a) ∈ p.entries ↔ p.get? h = some a := by
  obtain ⟨i, g⟩ := h
  simp only [entries, List.mem_filterMap, Prod.exists, List.mk_mem_zipIdx_iff_getElem?, get?_eq_some,
    Array.getElem?_toList, Option.map_eq_some_iff, Prod.mk.injEq, Handle.mk.injEq]
  constructor
  · rintro ⟨⟨g', v⟩, j, hs, b, hv, ⟨rfl, rfl⟩, rfl⟩
    simp only at hv
    rw [hs, hv]
  · intro hs
    exact ⟨⟨g, some a⟩, i, hs, a, rfl, ⟨rfl, rfl⟩, rfl⟩

theorem nodup_entries : (p.entries.map Prod.fst).Nodup := by
  have hpair : p.slots.toList.zipIdx.Pairwise fun x y => x.2 ≠ y.2 :=
    List.pairwise_map.mp (List.nodup_zipIdx_map_snd _)
  refine List.pairwise_map.mpr (List.pairwise_filterMap.mpr (hpair.imp ?_))
  rintro ⟨s, i⟩ ⟨s', j⟩ hij e he e' he' hee
  simp only [Option.map_eq_some_iff] at he he'
  obtain ⟨b, -, rfl⟩ := he
  obtain ⟨b', -, rfl⟩ := he'
  exact hij (congrArg Handle.index hee)

theorem Tight.free_length (hp : p.Tight) :
    p.free.length + p.entries.length = p.capacity := by
  -- The slots without a value, in their order, are the free ones in another.
  let vacant := p.slots.toList.zipIdx.filter fun x => x.1.value.isNone
  have hfree : p.free.Perm (vacant.map Prod.snd) := by
    refine (List.perm_ext_iff_of_nodup hp.nodup ?_).mpr fun i => ?_
    · exact (List.nodup_zipIdx_map_snd _).sublist (List.filter_sublist.map _)
    · rw [hp.mem_free]
      simp [vacant, List.mk_mem_zipIdx_iff_getElem?]
  have hvalues : p.entries.length = (p.slots.toList.zipIdx.filter fun x => !x.1.value.isNone).length := by
    unfold entries
    rw [List.length_filterMap_eq_countP, List.countP_eq_length_filter]
    congr 2
    funext ⟨⟨g, value⟩, i⟩
    cases value <;> rfl
  have hsplit := List.length_eq_length_filter_add (l := p.slots.toList.zipIdx) fun x => x.1.value.isNone
  rw [hfree.length_eq, hvalues, List.length_map]
  simpa [capacity, vacant] using hsplit.symm

theorem Tight.size_eq (hp : p.Tight) : p.size = p.entries.length := by
  have := hp.free_length
  unfold size
  unfold capacity at this
  omega

theorem Tight.size_le (hp : p.Tight) : p.size ≤ p.capacity := by
  have := hp.free_length
  rw [hp.size_eq]
  omega

theorem Tight.isFull_iff (hp : p.Tight) : p.isFull = true ↔ p.size = p.capacity := by
  have := hp.free_length
  rw [hp.size_eq, isFull, List.isEmpty_iff_length_eq_zero]
  omega

end NpcMind.SlotPool
