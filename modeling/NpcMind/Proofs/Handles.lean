import NpcMind.Proofs.SlotPool

/-!
# What a handle is good for

A pool is asked to put values in, to take them out and to change them in place, in any order. A slot moves
on one generation whenever a value is taken out of it, and generations are 32-bit words. So a handle that
was given out once is good if and only if its slot has a value and the number of values taken out of the
slot since then is a multiple of `UInt32.size`. Before the first is taken out, the handle is for the value
put in with it, as changed through it.
-/

namespace NpcMind.SlotPool

variable {α : Type} {p q : SlotPool α} {h k : Handle} {a b : α} {i : Nat} {f : α → α}

/-! ### Operations -/

/-- Change the value that a handle is for; stale handles are refused. -/
def update (p : SlotPool α) (h : Handle) (f : α → α) : Outcome (SlotPool α) := do
  let a ← p.get h
  return p.set h (f a)

/-- What a pool can be asked for. -/
inductive Op (α : Type) where
  | insert (a : α)
  | remove (h : Handle)
  | update (h : Handle) (f : α → α)

/-- The pool after an operation: the one before it, if the operation fails. -/
def after (p : SlotPool α) : Op α → SlotPool α
  | .insert a =>
    match p.insert a with
    | .ok (_, q) => q
    | .error _ => p
  | .remove h =>
    match p.remove h with
    | .ok (_, q) => q
    | .error _ => p
  | .update h f =>
    match p.update h f with
    | .ok q => q
    | .error _ => p

/-- The pool after some operations. -/
def run (p : SlotPool α) (ops : List (Op α)) : SlotPool α := ops.foldl after p

/-- The operation takes a value out of a slot. -/
def empties (p : SlotPool α) (i : Nat) : Op α → Bool
  | .remove h =>
    match p.remove h with
    | .ok _ => h.index == i
    | .error _ => false
  | _ => false

/-- The number of values taken out of a slot. -/
def removals (i : Nat) : SlotPool α → List (Op α) → Nat
  | _, [] => 0
  | p, op :: ops => (p.empties i op).toNat + removals i (p.after op) ops

/-- What operations make of a value through its own handle. -/
def latest (h : Handle) : α → List (Op α) → α
  | a, [] => a
  | a, .update k f :: ops => latest h (if k = h then f a else a) ops
  | a, _ :: ops => latest h a ops

/-- A slot has a value. -/
def Occupied (p : SlotPool α) (i : Nat) : Prop := ∃ slot, p.slots[i]? = some slot ∧ slot.value ≠ none

/-- The generation of a slot. -/
def generation? (p : SlotPool α) (i : Nat) : Option UInt32 := p.slots[i]?.map Slot.generation

@[simp] theorem run_nil : p.run [] = p := rfl

@[simp] theorem run_cons (op : Op α) (ops : List (Op α)) : p.run (op :: ops) = (p.after op).run ops := rfl

theorem run_append (ops ops' : List (Op α)) : p.run (ops ++ ops') = (p.run ops).run ops' :=
  List.foldl_append

theorem update_of_get? (hh : p.get? h = some a) : p.update h f = .ok (p.set h (f a)) := by
  simp only [update, get_eq_ok.mpr hh]
  rfl

theorem update_of_stale (hh : p.get? h = none) : p.update h f = .error (.staleHandle h.index) := by
  simp only [update, get, hh]
  rfl

theorem remove_of_stale (hh : p.get? h = none) : p.remove h = .error (.staleHandle h.index) := by
  simp only [remove, hh]

theorem after_insert (hi : p.insert a = .ok (h, q)) : p.after (.insert a) = q := by
  simp only [after, hi]

theorem after_insert_error {e : Error} (hi : p.insert a = .error e) : p.after (.insert a) = p := by
  simp only [after, hi]

theorem after_remove (hr : p.remove h = .ok (a, q)) : p.after (.remove h) = q := by
  simp only [after, hr]

theorem after_remove_of_stale (hh : p.get? h = none) : p.after (.remove h) = p := by
  simp only [after, remove_of_stale hh]

theorem after_update (hh : p.get? h = some a) : p.after (.update h f) = p.set h (f a) := by
  simp only [after, update_of_get? hh]

theorem after_update_of_stale (hh : p.get? h = none) : p.after (.update h f) = p := by
  simp only [after, update_of_stale hh]

/-! ### The free slots -/

theorem Tight.after (hp : p.Tight) (op : Op α) : (p.after op).Tight := by
  cases op with
  | insert a =>
    cases hi : p.insert a with
    | error e => rwa [after_insert_error hi]
    | ok r => exact after_insert hi ▸ (hp.inserted hi).tight
  | remove h =>
    cases hh : p.get? h with
    | none => rwa [after_remove_of_stale hh]
    | some a =>
      obtain ⟨q, hr, hremoved⟩ := hp.removed hh
      exact after_remove hr ▸ hremoved.tight
  | update h f =>
    cases hh : p.get? h with
    | none => rwa [after_update_of_stale hh]
    | some a =>
      rw [after_update hh]
      exact hp.set

theorem Tight.run (hp : p.Tight) (ops : List (Op α)) : (p.run ops).Tight := by
  induction ops generalizing p with
  | nil => exact hp
  | cons op ops ih => exact ih (hp.after op)

theorem length_entries (p : SlotPool α) :
    p.entries.length = p.slots.toList.countP fun slot => slot.value.isSome := by
  have hslots : p.slots.toList = p.slots.toList.zipIdx.map Prod.fst := by simp
  rw [entries, List.length_filterMap_eq_countP]
  conv_rhs => rw [hslots, List.countP_map]
  congr 1
  funext e
  simp

theorem Tight.size_eq_countP (hp : p.Tight) :
    p.size = p.slots.toList.countP fun slot => slot.value.isSome :=
  hp.size_eq.trans p.length_entries

/-- A value is refused only if every slot has one already. -/
theorem Tight.insert_error_iff (hp : p.Tight) (a : α) :
    (∃ e, p.insert a = .error e) ↔ ∀ i < p.capacity, p.Occupied i := by
  constructor
  · rintro ⟨e, he⟩ i hi
    have hfull : p.isFull = true := by
      by_contra hfull
      obtain ⟨h, q, hok⟩ := insert_ok hp (Bool.not_eq_true _ ▸ hfull) a
      rw [hok] at he
      cases he
    have hslot : p.slots[i]? = some p.slots[i] := Array.getElem?_eq_getElem hi
    refine ⟨p.slots[i], hslot, fun hv => ?_⟩
    have hmem := (hp.mem_free i).mpr ⟨_, hslot, hv⟩
    rw [List.isEmpty_iff.mp hfull] at hmem
    exact List.not_mem_nil hmem
  · intro hall
    unfold insert
    cases hf : p.free with
    | nil => exact ⟨_, rfl⟩
    | cons i free =>
      -- The first free slot would have to have a value.
      obtain ⟨slot, hslot, hv⟩ := (hp.mem_free i).mp (by rw [hf]; exact List.mem_cons_self)
      obtain ⟨slot', hslot', hv'⟩ := hall i (Array.getElem?_eq_some_iff.mp hslot).1
      rw [hslot] at hslot'
      cases hslot'
      exact absurd hv hv'

/-! ### Generations -/

theorem generation?_set : (p.set h a).generation? i = p.generation? i := by
  cases hh : p.get? h with
  | none => rw [set_of_stale hh]
  | some b =>
    have hs := get?_eq_some.mp hh
    have hlt : h.index < p.slots.size := (Array.getElem?_eq_some_iff.mp hs).1
    rw [set_of_get? hh]
    simp only [generation?, Array.getElem?_setIfInBounds]
    by_cases hi : h.index = i
    · subst hi
      rw [if_pos rfl, if_pos hlt, hs]
      rfl
    · rw [if_neg hi]

theorem generation?_insert (hi : p.insert a = .ok (h, q)) : q.generation? i = p.generation? i := by
  unfold insert at hi
  split at hi
  · cases hi
  · next j free hf =>
    split at hi
    · cases hi
    · next slot hslot =>
      cases hi
      simp only [generation?, Array.getElem?_setIfInBounds]
      by_cases hj : j = i
      · subst hj
        have hlt : j < p.slots.size := (Array.getElem?_eq_some_iff.mp hslot).1
        rw [if_pos rfl, if_pos hlt, hslot]
        rfl
      · rw [if_neg hj]

theorem generation?_remove (hr : p.remove h = .ok (a, q)) :
    q.generation? i = (p.generation? i).map (· + if h.index = i then 1 else 0) := by
  unfold remove at hr
  split at hr
  · cases hr
  · cases hr
    simp only [generation?, Array.getElem?_modify]
    by_cases hi : h.index = i
    · cases p.slots[i]? <;> simp [hi]
    · cases p.slots[i]? <;> simp [hi]

/-- A slot moves on one generation when a value is taken out of it, and never else. -/
theorem Tight.generation?_after (hp : p.Tight) (i : Nat) (op : Op α) :
    (p.after op).generation? i = (p.generation? i).map (· + UInt32.ofNat (p.empties i op).toNat) := by
  have hstay : p.generation? i = (p.generation? i).map (· + UInt32.ofNat false.toNat) := by
    cases p.generation? i <;> simp
  cases op with
  | insert a =>
    cases hi : p.insert a with
    | error e => rwa [after_insert_error hi]
    | ok r => rwa [after_insert hi, generation?_insert hi]
  | remove h =>
    cases hh : p.get? h with
    | none =>
      simp only [empties, remove_of_stale hh]
      rwa [after_remove_of_stale hh]
    | some a =>
      obtain ⟨q, hr, -⟩ := hp.removed hh
      rw [after_remove hr, generation?_remove hr]
      simp only [empties, hr]
      by_cases hi : h.index = i
      · simp [hi]
      · have hne : (h.index == i) = false := by simpa using hi
        simp [hi, hne]
  | update h f =>
    cases hh : p.get? h with
    | none => rwa [after_update_of_stale hh]
    | some a => rwa [after_update hh, generation?_set]

theorem Tight.generation?_run (hp : p.Tight) (i : Nat) (ops : List (Op α)) :
    (p.run ops).generation? i = (p.generation? i).map (· + UInt32.ofNat (removals i p ops)) := by
  induction ops generalizing p with
  | nil => cases hg : p.generation? i <;> simp [removals, hg]
  | cons op ops ih =>
    rw [run_cons, ih (hp.after op), hp.generation?_after i op, Option.map_map]
    congr 1
    funext g
    simp only [removals, Function.comp_apply, UInt32.ofNat_add, UInt32.add_assoc]

theorem add_ofNat_eq_self (g : UInt32) (n : Nat) : g + UInt32.ofNat n = g ↔ UInt32.size ∣ n := by
  rw [← UInt32.toNat_inj, UInt32.toNat_add, UInt32.toNat_ofNat']
  have hlt := g.toNat_lt
  unfold UInt32.size
  omega

/-! ### Good handles -/

theorem contains_iff_generation :
    p.contains h = true ↔ p.Occupied h.index ∧ p.generation? h.index = some h.generation := by
  rw [contains_iff]
  simp only [get?_eq_some, Occupied, generation?]
  rcases p.slots[h.index]? with _ | ⟨g, _ | v⟩ <;> simp

/-- A handle is good again whenever its slot, with a value in it, has gone through all generations. -/
theorem Tight.contains_run (hp : p.Tight) (hg : p.generation? h.index = some h.generation)
    (ops : List (Op α)) :
    (p.run ops).contains h = true ↔
      (p.run ops).Occupied h.index ∧ UInt32.size ∣ removals h.index p ops := by
  rw [contains_iff_generation, hp.generation?_run, hg, Option.map_some, Option.some.injEq, add_ofNat_eq_self]

/-- The functions that take a handle accept it under one condition. -/
structure AcceptsIff (p : SlotPool α) (h : Handle) (condition : Prop) : Prop where
  contains : p.contains h = true ↔ condition
  get : (∃ a, p.get h = .ok a) ↔ condition
  update : ∀ f, (∃ q, p.update h f = .ok q) ↔ condition
  remove : (∃ r, p.remove h = .ok r) ↔ condition

theorem acceptsIff_of_contains {condition : Prop} (hc : p.contains h = true ↔ condition) :
    p.AcceptsIff h condition := by
  obtain rfl := propext hc
  simp only [contains_iff]
  cases hh : p.get? h with
  | none =>
    refine ⟨by simp [contains_iff, hh], ?_, fun f => ?_, ?_⟩
    · simp [get, hh]
    · simp [update_of_stale hh]
    · simp [remove_of_stale hh]
  | some a =>
    refine ⟨by simp [contains_iff, hh], ?_, fun f => ?_, ?_⟩
    · simp [get, hh]
    · simp [update_of_get? hh]
    · simp [SlotPool.remove, hh]

/-- As long as no value is taken out of its slot, a handle is for its own value. -/
theorem Tight.get?_after (hp : p.Tight) (hh : p.get? h = some a) {op : Op α}
    (hop : p.empties h.index op = false) : (p.after op).get? h = some (latest h a [op]) := by
  cases op with
  | insert b =>
    cases hi : p.insert b with
    | error e => rwa [after_insert_error hi]
    | ok r =>
      obtain ⟨k, q⟩ := r
      have hinserted := hp.inserted hi
      rw [after_insert hi, hinserted.get?, if_neg fun hk => hinserted.fresh h a hh (congrArg _ hk)]
      exact hh
  | remove k =>
    cases hk : p.get? k with
    | none => rwa [after_remove_of_stale hk]
    | some b =>
      obtain ⟨q, hr, hremoved⟩ := hp.removed hk
      have hne : h ≠ k := by
        rintro rfl
        simp [empties, hr] at hop
      rw [after_remove hr, hremoved.get?, if_neg hne]
      exact hh
  | update k f =>
    cases hk : p.get? k with
    | none =>
      have hne : k ≠ h := by
        rintro rfl
        rw [hk] at hh
        cases hh
      rw [after_update_of_stale hk, hh, latest, if_neg hne, latest]
    | some b =>
      rw [after_update hk, get?_set, latest, latest]
      by_cases hkh : k = h
      · subst hkh
        rw [hk] at hh
        cases hh
        simp [hk]
      · rw [if_neg fun hhk => hkh hhk.symm, if_neg hkh, hh]

theorem latest_cons (h : Handle) (a : α) (op : Op α) (ops : List (Op α)) :
    latest h a (op :: ops) = latest h (latest h a [op]) ops := by
  cases op <;> rfl

theorem Tight.get?_run (hp : p.Tight) (hh : p.get? h = some a) {ops : List (Op α)}
    (hops : removals h.index p ops = 0) : (p.run ops).get? h = some (latest h a ops) := by
  induction ops generalizing p a with
  | nil => exact hh
  | cons op ops ih =>
    obtain ⟨hop, hrest⟩ := Nat.add_eq_zero_iff.mp hops
    rw [run_cons, latest_cons]
    exact ih (hp.after op) (hp.get?_after hh (by simpa using hop)) hrest

/-! ### All handles of a pool -/

/-- What is true of the pool that operations leave, and of the handles given out on the way. -/
structure Exact (start : SlotPool α) (ops : List (Op α)) : Prop where
  free_nodup : (start.run ops).free.Nodup
  mem_free : ∀ i, i ∈ (start.run ops).free ↔ i < start.capacity ∧ ¬ (start.run ops).Occupied i
  size : (start.run ops).size = (start.run ops).slots.toList.countP fun slot => slot.value.isSome
  insert : ∀ a, (∃ e, (start.run ops).insert a = .error e) ↔
    ∀ i < start.capacity, (start.run ops).Occupied i
  insert_error : ∀ a e, (start.run ops).insert a = .error e →
    e = .exhausted start.name start.capacity ∧ (start.run ops).after (.insert a) = start.run ops
  remove_error : ∀ h e, (start.run ops).remove h = .error e →
    e = .staleHandle h.index ∧ (start.run ops).after (.remove h) = start.run ops
  /-- A handle that is given out is for a slot of the pool, and the number of the slot fits the 32 bits it is
  written with. -/
  index_lt : ∀ {earlier a later h q}, ops = earlier ++ .insert a :: later →
    (start.run earlier).insert a = .ok (h, q) → h.index < start.capacity ∧ h.index < UInt32.size
  /-- A handle is good while its slot has a value and is in the generation of the handle. -/
  accepts : ∀ {earlier a later h q}, ops = earlier ++ .insert a :: later →
    (start.run earlier).insert a = .ok (h, q) →
    (start.run ops).AcceptsIff h
      ((start.run ops).Occupied h.index ∧ UInt32.size ∣ removals h.index q later)
  /-- A handle out of whose slot nothing was taken is for its own value. -/
  live : ∀ {earlier a later h q}, ops = earlier ++ .insert a :: later →
    (start.run earlier).insert a = .ok (h, q) → removals h.index q later = 0 →
    (start.run ops).get h = .ok (latest h a later)
  /-- A handle stays refused until its slot has gone through all generations. -/
  stale : ∀ {earlier a later h q}, ops = earlier ++ .insert a :: later →
    (start.run earlier).insert a = .ok (h, q) → 0 < removals h.index q later →
    removals h.index q later < UInt32.size → (start.run ops).contains h = false

theorem Tight.frame_after (hp : p.Tight) (op : Op α) :
    (p.after op).name = p.name ∧ (p.after op).capacity = p.capacity := by
  cases op with
  | insert a =>
    cases hi : p.insert a with
    | error e => rw [after_insert_error hi]; exact ⟨rfl, rfl⟩
    | ok r =>
      have hinserted := hp.inserted hi
      exact after_insert hi ▸ ⟨hinserted.name, hinserted.capacity⟩
  | remove h =>
    cases hh : p.get? h with
    | none => rw [after_remove_of_stale hh]; exact ⟨rfl, rfl⟩
    | some a =>
      obtain ⟨q, hr, hremoved⟩ := hp.removed hh
      exact after_remove hr ▸ ⟨hremoved.name, hremoved.capacity⟩
  | update h f =>
    cases hh : p.get? h with
    | none => rw [after_update_of_stale hh]; exact ⟨rfl, rfl⟩
    | some a => rw [after_update hh]; exact ⟨set_name, set_capacity⟩

theorem Tight.frame_run (hp : p.Tight) (ops : List (Op α)) :
    (p.run ops).name = p.name ∧ (p.run ops).capacity = p.capacity := by
  induction ops generalizing p with
  | nil => exact ⟨rfl, rfl⟩
  | cons op ops ih =>
    obtain ⟨hname, hcapacity⟩ := hp.frame_after op
    obtain ⟨hname', hcapacity'⟩ := ih (hp.after op)
    exact ⟨hname'.trans hname, hcapacity'.trans hcapacity⟩

theorem Tight.mem_free_iff (hp : p.Tight) : i ∈ p.free ↔ i < p.capacity ∧ ¬ p.Occupied i := by
  rw [hp.mem_free]
  unfold Occupied capacity
  constructor
  · rintro ⟨slot, hslot, hv⟩
    refine ⟨(Array.getElem?_eq_some_iff.mp hslot).1, ?_⟩
    rintro ⟨slot', hslot', hv'⟩
    rw [hslot] at hslot'
    cases hslot'
    exact hv' hv
  · rintro ⟨hi, hnot⟩
    have hslot : p.slots[i]? = some p.slots[i] := Array.getElem?_eq_getElem hi
    exact ⟨_, hslot, by_contra fun hv => hnot ⟨_, hslot, hv⟩⟩

theorem Tight.exhausted_of_insert {e : Error} (hp : p.Tight) (hi : p.insert a = .error e) :
    e = .exhausted p.name p.capacity := by
  unfold SlotPool.insert at hi
  split at hi
  · cases hi
    rfl
  · next i free hf =>
    obtain ⟨slot, hslot, -⟩ := (hp.mem_free i).mp (by rw [hf]; exact List.mem_cons_self)
    rw [hslot] at hi
    cases hi

theorem Tight.stale_of_remove {e : Error} (hp : p.Tight) (hr : p.remove h = .error e) :
    p.get? h = none ∧ e = .staleHandle h.index := by
  cases hh : p.get? h with
  | none =>
    rw [remove_of_stale hh] at hr
    cases hr
    exact ⟨rfl, rfl⟩
  | some a =>
    obtain ⟨q, hok, -⟩ := hp.removed hh
    rw [hok] at hr
    cases hr

/-! ### Handles given out on the way -/

theorem run_of_insert {earlier : List (Op α)} (hi : (p.run earlier).insert a = .ok (h, q))
    (later : List (Op α)) : p.run (earlier ++ .insert a :: later) = q.run later := by
  rw [run_append, run_cons, after_insert hi]

theorem Tight.contains_of_insert (hp : p.Tight) (hi : p.insert a = .ok (h, q)) (later : List (Op α)) :
    (q.run later).contains h = true ↔
      (q.run later).Occupied h.index ∧ UInt32.size ∣ removals h.index q later := by
  have hgood : q.contains h = true := contains_iff.mpr ⟨a, (hp.inserted hi).get?_self⟩
  exact (hp.inserted hi).tight.contains_run (contains_iff_generation.mp hgood).2 later

/-- **Handles are exact.** For every capacity `n` that fits 32 bits and every list `ops` of insertions, removals and
changes in place, the pool `run ops` makes of `ofCapacity name n` has in `free` each slot without a value once, and
`size` is the number of the others. `insert` fails exactly if all are occupied, `remove` only on a stale handle, and
both then change nothing. A handle `h` given out by an `insert` on the way is accepted by `get`, `contains`, `remove`
and `update` exactly if its slot is occupied and `UInt32.size` divides the number of removals from the slot since
then: it reaches its own latest value before the first of them, and is refused for the `UInt32.size - 1` after it. -/
theorem handles_exact (name : String) {n : Nat} (hn : n < UInt32.size) (ops : List (Op α)) :
    (ofCapacity name n : SlotPool α).Exact ops := by
  have hstart : (ofCapacity name n : SlotPool α).Tight := tight_ofCapacity name n
  have hword : (ofCapacity name n : SlotPool α).capacity < UInt32.size := by
    rwa [capacity, ofCapacity, Array.size_replicate]
  generalize (ofCapacity name n : SlotPool α) = start at hstart hword
  have hp := hstart.run ops
  obtain ⟨hname, hcapacity⟩ := hstart.frame_run ops
  refine ⟨hp.nodup, fun i => ?_, hp.size_eq_countP, fun a => ?_, fun a e hi => ?_, fun h e hr => ?_,
    @fun earlier a later h q hops hi => ?_, @fun earlier a later h q hops hi => ?_,
    @fun earlier a later h q hops hi hlive => ?_, @fun earlier a later h q hops hi hpos hlt => ?_⟩
  · rw [hp.mem_free_iff, hcapacity]
  · rw [hp.insert_error_iff, hcapacity]
  · rw [← hname, ← hcapacity]
    exact ⟨hp.exhausted_of_insert hi, after_insert_error hi⟩
  · obtain ⟨hstale, he⟩ := hp.stale_of_remove hr
    exact ⟨he, after_remove_of_stale hstale⟩
  · have hinserted := (hstart.run earlier).inserted hi
    have hindex : h.index < start.capacity := by
      rw [← (hstart.frame_run earlier).2, ← hinserted.capacity]
      exact index_lt hinserted.get?_self
    exact ⟨hindex, Nat.lt_trans hindex hword⟩
  · rw [hops, run_of_insert hi]
    exact acceptsIff_of_contains ((hstart.run earlier).contains_of_insert hi later)
  · have hinserted := (hstart.run earlier).inserted hi
    rw [hops, run_of_insert hi, get_eq_ok]
    exact hinserted.tight.get?_run hinserted.get?_self hlive
  · rw [hops, run_of_insert hi]
    refine Bool.eq_false_iff.mpr fun hc => ?_
    have hdvd := (((hstart.run earlier).contains_of_insert hi later).mp hc).2
    exact absurd (Nat.le_of_dvd hpos hdvd) (Nat.not_le.mpr hlt)

/-- In a pool of one slot, the handle of a value that was taken out is refused although the slot is in use again, and
the new one reaches what its value was changed to. -/
theorem handles_exact_after_reuse : ∃ p : SlotPool Nat, 1 < UInt32.size ∧
    (ofCapacity "pool" 1).run [.insert 5, .remove ⟨0, 0⟩, .insert 6, .update ⟨0, 1⟩ (· + 1)] = p ∧
    p.Occupied 0 ∧ p.contains ⟨0, 0⟩ = false ∧ p.get ⟨0, 1⟩ = .ok (latest ⟨0, 1⟩ 6 [.update ⟨0, 1⟩ (· + 1)]) := by
  have hexact : (ofCapacity "pool" 1 : SlotPool Nat).Exact
      [.insert 5, .remove ⟨0, 0⟩, .insert 6, .update ⟨0, 1⟩ (· + 1)] := handles_exact "pool" (by decide) _
  have hold : ((ofCapacity "pool" 1 : SlotPool Nat).run []).insert 5 = .ok (⟨0, 0⟩, _) := rfl
  have hnew : ((ofCapacity "pool" 1 : SlotPool Nat).run [.insert 5, .remove ⟨0, 0⟩]).insert 6 = .ok (⟨0, 1⟩, _) := rfl
  exact ⟨_, by decide, rfl, ⟨_, rfl, by decide⟩, hexact.stale rfl hold (by decide) (by decide),
    hexact.live rfl hnew rfl⟩

end NpcMind.SlotPool
