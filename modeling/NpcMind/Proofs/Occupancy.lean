import NpcMind.Proofs.Fractions
import NpcMind.Proofs.Recollection
import NpcMind.Proofs.Restoring
import NpcMind.Proofs.Validity

/-!
# How a memory fills up

As long as there is a free slot, a write takes the first one, so the occupied slots of a memory are its first ones, one
more with every write until there are no more. Nothing else matters for this: not what was written, nor how strongly,
nor whether the memory was put back in between. Usage and importance stay numbers from 0 to 1 all the time, since a
strength is moved into that interval and usage fades by a factor from it.

The writes are counted in a word. After `2 ^ 64` of them the counter is back at zero, and no longer tells how many slots
are occupied.
-/

namespace NpcMind.Memory

open Outcome
open Single (Fraction)

variable {c : Config.Memory} {m m' m₀ : Memory} {ws : List ℕ} {n slot : ℕ} {t : Trace} {value : Vec}
  {strength : Float32} {links : Links}

/-! ### The first slots -/

/-- The first `n` slots are occupied, as far as there are so many, and no others are. -/
def Filled (n : ℕ) (m : Memory) : Prop :=
  ∀ (i : ℕ) (t : Trace), m.slots[i]? = some t → (t.occupied = true ↔ i < n)

/-- As long as there is a free slot, the next one is taken. -/
theorem Filled.slot_eq (h : m.Filled n) (hchooses : m.Chooses slot t) (hn : n < m.capacity) : slot = n := by
  have hnext : m.slots[n]? = some m.slots[n] := Array.getElem?_eq_getElem hn
  have hfull (hall : ∀ u ∈ m.slots, u.occupied = true) : slot = n :=
    absurd ((h n _ hnext).mp (hall _ (Array.getElem_mem hn))) (Nat.lt_irrefl n)
  cases hchooses with
  | free here vacant first =>
    have hge : ¬ slot < n := by
      intro hlt
      rw [(h slot t here).mpr hlt] at vacant
      cases vacant
    have hle : ¬ n < slot := by
      intro hlt
      exact absurd ((h n _ hnext).mp (first n _ hlt hnext)) (Nat.lt_irrefl n)
    omega
  | leastUsed full => exact hfull full
  | leastImportant full => exact hfull full

/-- **A write fills one slot more.** -/
theorem Filled.hold (h : m.Filled n) (hchooses : m.Chooses slot t) :
    (m.hold slot value strength links).Filled (n + 1) := by
  have hslot : slot < m.capacity := (Array.getElem?_eq_some_iff.mp hchooses.here).1
  have hnext : n < m.capacity → slot = n := h.slot_eq hchooses
  intro i u hu
  by_cases hi : i = slot
  · rw [hi, slots_hold_here value strength links hslot] at hu
    cases hu
    refine iff_of_true rfl ?_
    omega
  · rw [slots_hold_other hi] at hu
    obtain ⟨v, hv, rfl⟩ := Option.map_eq_some_iff.mp hu
    have hlt : i < m.capacity := (Array.getElem?_eq_some_iff.mp hv).1
    rw [h i v hv]
    omega

theorem Filled.occupied_eq (h : m.Filled n) : m.occupied = min n m.capacity := by
  have hfront : ∀ t ∈ m.slots.toList.take n, t.occupied = true := by
    intro t ht
    obtain ⟨i, hi, rfl⟩ := List.mem_take_iff_getElem.mp ht
    exact (h i _ (by simp)).mpr (by omega)
  have hrest : ∀ t ∈ m.slots.toList.drop n, ¬ t.occupied = true := by
    intro t ht
    obtain ⟨i, hi, rfl⟩ := List.mem_drop_iff_getElem.mp ht
    rw [h (n + i) _ (by simp)]
    omega
  have hcount : (m.slots.toList.take n ++ m.slots.toList.drop n).countP Trace.occupied = _ := List.countP_append
  rw [List.take_append_drop, List.countP_eq_length.mpr hfront, List.countP_eq_zero.mpr hrest, List.length_take] at hcount
  rw [occupied, ← Array.countP_toList, hcount, capacity]
  rfl

/-! ### Usage and importance -/

theorem fraction_strengthOf (x : Float32) : Fraction (strengthOf x) := by
  unfold strengthOf
  split
  · next hx => exact Single.fraction_unit (Single.isNaN_of_isFinite hx)
  · exact Single.fraction_zero

/-- A memory in use, after `n` writes into it. -/
structure InUse (n : ℕ) (m : Memory) : Prop where
  decay : Fraction m.config.usageDecay
  usage : ∀ t ∈ m.slots, Fraction t.usage
  importance : ∀ t ∈ m.slots, Fraction t.importance
  filled : m.Filled n
  writes : m.writes = .ofNat n

namespace InUse

theorem empty (h : Fraction c.usageDecay) : (empty c).InUse 0 where
  decay := h
  usage := by
    intro t ht
    rw [(Array.mem_replicate.mp ht).2]
    exact Single.fraction_zero
  importance := by
    intro t ht
    rw [(Array.mem_replicate.mp ht).2]
    exact Single.fraction_zero
  filled := by
    intro i t ht
    rw [(Array.mem_replicate.mp (Array.mem_of_getElem? ht)).2]
    exact iff_of_false Bool.false_ne_true (Nat.not_lt_zero i)
  writes := rfl

theorem hold (h : m.InUse n) (hchooses : m.Chooses slot t) (hstrength : Fraction strength) :
    (m.hold slot value strength links).InUse (n + 1) where
  decay := h.decay
  usage := by
    intro t ht
    rcases mem_slots_hold ht with rfl | ⟨u, hu, rfl⟩
    · exact Single.fraction_one
    · exact (h.usage u hu).mul h.decay
  importance := by
    intro t ht
    rcases mem_slots_hold ht with rfl | ⟨u, hu, rfl⟩
    · exact hstrength
    · exact h.importance u hu
  filled := h.filled.hold hchooses
  writes := by
    show m.writes + 1 = _
    rw [h.writes, UInt64.ofNat_add]
    rfl

/-- **One write** counts, unless there is no slot for it. -/
theorem write {stored : Option Stored} (h : m.InUse n) (hw : m.write value strength = .ok (stored, m')) :
    m'.InUse (n + stored.toList.length) := by
  cases stored with
  | none =>
    rw [eq_of_write_none hw]
    exact h
  | some stored =>
    obtain ⟨t, links, -, -, hchooses, -, -, rfl⟩ := of_write hw
    exact h.hold hchooses (fraction_strengthOf strength)

end InUse

/-! ### Saving and putting back -/

/-- What is put back into a slot is what was saved of it. -/
theorem slots_put_toRecord {i : ℕ} (ht : (m₀.put m.toRecord).slots[i]? = some t)
    (hsize : m₀.capacity = m.capacity) : ∃ u, m.slots[i]? = some u ∧
      t.usage = u.usage ∧ t.importance = u.importance ∧ t.occupied = u.occupied := by
  simp only [put, Array.getElem?_map] at ht
  obtain ⟨j, hj, rfl⟩ := Option.map_eq_some_iff.mp ht
  obtain ⟨hi, rfl⟩ := Array.getElem?_eq_some_iff.mp hj
  have hlt : i < m.slots.size := by
    rw [Array.size_range, hsize] at hi
    exact hi
  refine ⟨m.slots[i], Array.getElem?_eq_getElem hlt, ?_⟩
  simp [toRecord, Memory.usage, Memory.importance, hlt]

/-- **What is put back** is as much in use as what was saved, whatever was there before. -/
theorem InUse.restore {k : ℕ} {r : MemoryRecord} (h : m.InUse n) (h₀ : m₀.InUse k) (hr : m.record = .ok r)
    (hm : m₀.restore r = .ok m') : m'.InUse n := by
  obtain ⟨-, rfl⟩ := of_record hr
  obtain ⟨hsuits, rfl⟩ := eq_put_of_restore hm
  have hsize : m₀.capacity = m.capacity := hsuits.slotCount.symm
  have hslot {t : Trace} (ht : t ∈ (m₀.put m.toRecord).slots) :
      ∃ u ∈ m.slots, t.usage = u.usage ∧ t.importance = u.importance := by
    obtain ⟨i, hi⟩ := Array.getElem?_of_mem ht
    obtain ⟨u, hu, husage, himportance, -⟩ := slots_put_toRecord hi hsize
    exact ⟨u, Array.mem_of_getElem? hu, husage, himportance⟩
  refine ⟨h₀.decay, ?_, ?_, ?_, h.writes⟩
  · intro t ht
    obtain ⟨u, hu, husage, -⟩ := hslot ht
    exact husage ▸ h.usage u hu
  · intro t ht
    obtain ⟨u, hu, -, himportance⟩ := hslot ht
    exact himportance ▸ h.importance u hu
  · intro i t ht
    obtain ⟨u, hu, -, -, hoccupied⟩ := slots_put_toRecord ht hsize
    rw [hoccupied]
    exact h.filled i u hu

/-! ### Runs -/

/-- Memories of valid configurations that came about by writing, forgetting and putting back what was saved of such a
memory, with the slots written since they were last empty. -/
inductive Kept : Memory → List ℕ → Prop
  | new {config : Config} {m : Memory} (hvalid : config.validate = .ok ()) (h : ofConfig config.memory = .ok m) :
      Kept m []
  | write {m m' : Memory} {ws : List ℕ} {value : Vec} {strength : Float32} {stored : Option Stored}
      (h : Kept m ws) (hw : m.write value strength = .ok (stored, m')) :
      Kept m' (ws ++ stored.toList.map Stored.slot)
  | clear {m : Memory} {ws : List ℕ} (h : Kept m ws) : Kept m.clear []
  | restore {m m₀ m' : Memory} {ws ws₀ : List ℕ} {r : MemoryRecord} (h : Kept m ws) (h₀ : Kept m₀ ws₀)
      (hr : m.record = .ok r) (hm : m₀.restore r = .ok m') : Kept m' ws

theorem Kept.written (h : Kept m ws) : Written m ws := by
  induction h with
  | new _ h => exact .new h
  | write _ hw ih => exact .write ih hw
  | clear _ ih => exact .clear ih
  | restore _ _ hr hm ih ih₀ => exact .restore ih ih₀ hr hm

theorem Kept.inUse (h : Kept m ws) : m.InUse ws.length := by
  induction h with
  | new hvalid h =>
    obtain ⟨hlow, hhigh⟩ := (Config.accepted_of_validate hvalid).usageDecay
    rw [eq_empty_of_ofConfig h]
    exact .empty ⟨hlow, hhigh⟩
  | write _ hw ih =>
    rw [List.length_append, List.length_map]
    exact ih.write hw
  | clear h ih =>
    rw [h.written.holds.fits.clear]
    exact .empty ih.decay
  | restore _ _ hr hm ih ih₀ => exact ih.restore ih₀ hr hm

theorem Kept.ranged (h : Kept m ws) : m.Ranged m.config m.capacity where
  config := rfl
  capacity := rfl
  links := by
    rw [capacity, h.written.holds.fits.size]
    exact h.written.holds.fits.links

/-- **A memory with a slot and a buffer can always be written**, and the slot that was taken counts as fully used. -/
theorem Kept.write_taken (h : Kept m ws) (hpos : 0 < m.capacity) (hb : m.isBacked = true) (hv : value.size = m.width)
    (strength : Float32) : ∃ stored m' t, m.write value strength = .ok (some stored, m') ∧
      Kept m' (ws ++ [stored.slot]) ∧ m'.Ranged m.config m.capacity ∧
      m'.slots[stored.slot]? = some t ∧ t.usage = 1 := by
  obtain ⟨stored, m', hwrite, -, hranged, -⟩ := h.ranged.write_some hb hpos hv strength
  obtain ⟨t, links, -, -, hchooses, -, -, hm'⟩ := of_write hwrite
  have hslot := (Array.getElem?_eq_some_iff.mp hchooses.here).1
  have hhere := slots_hold_here value (strengthOf strength) links hslot
  rw [← hm'] at hhere
  exact ⟨stored, m', _, hwrite, h.write hwrite, hranged, hhere, rfl⟩

/-- So it can be written as often as one likes. -/
theorem Kept.write_times (h : Kept m ws) (hpos : 0 < m.capacity) (hb : m.isBacked = true) (n : ℕ) :
    ∃ m' ws', Kept m' ws' ∧ ws'.length = ws.length + n ∧ m'.Ranged m.config m.capacity := by
  induction n with
  | zero => exact ⟨m, ws, h, rfl, h.ranged⟩
  | succ n ih =>
    obtain ⟨m', ws', h', hlength, hranged⟩ := ih
    have hb' : m'.isBacked = true := by
      rw [hranged.isBacked, ← h.ranged.isBacked]
      exact hb
    rw [← hranged.capacity] at hpos
    have hv : (Vec.zeros m'.width).size = m'.width := Array.size_replicate
    obtain ⟨stored, m'', -, -, h'', hranged', -⟩ := h'.write_taken hpos hb' hv 1
    rw [hranged.config, hranged.capacity] at hranged'
    refine ⟨m'', _, h'', ?_, hranged'⟩
    rw [List.length_append, hlength, List.length_singleton, Nat.add_assoc]

/-- **Usage, importance and occupancy after the writes `ws`.** In a memory `m` that was `Kept` from a valid
configuration through `write`, `clear` and `restore`, `usage` and `importance` of every slot are numbers from 0 to 1.
The slots below `m.occupied` are occupied and no others, `m.occupied` is `min ws.length m.capacity`, and `m.writes` is
`ws.length` as a word of 64 bits, so that `m.occupied` can be read off it below `2 ^ 64` writes. A further write of
the right size succeeds if there are slots and a buffer, leaves `m'` `Kept`, and the slot it took has usage 1. -/
theorem Kept.usage_and_occupancy (h : Kept m ws) :
    (∀ t ∈ m.slots, (t.usage.isNaN = false ∧ 0 ≤ t.usage ∧ t.usage ≤ 1) ∧
      (t.importance.isNaN = false ∧ 0 ≤ t.importance ∧ t.importance ≤ 1)) ∧
    (∀ (i : ℕ) (t : Trace), m.slots[i]? = some t → (t.occupied = true ↔ i < m.occupied)) ∧
    m.occupied = min ws.length m.capacity ∧ m.writes = .ofNat ws.length ∧
    (ws.length < UInt64.size → m.occupied = min m.writes.toNat m.capacity) ∧
    ∀ (value : Vec) (strength : Float32), value.size = m.width →
      (m.capacity = 0 → m.write value strength = .ok (none, m)) ∧
      (m.isBacked = false → m.write value strength = .error .outOfBounds) ∧
      (0 < m.capacity → m.isBacked = true → ∃ stored m' t, m.write value strength = .ok (some stored, m') ∧
        Kept m' (ws ++ [stored.slot]) ∧ m'.slots[stored.slot]? = some t ∧ t.usage = 1) := by
  have hinUse := h.inUse
  have hoccupied := hinUse.filled.occupied_eq
  have hranged := h.ranged
  refine ⟨?_, ?_, hoccupied, hinUse.writes, ?_, ?_⟩
  · intro t ht
    have husage := hinUse.usage t ht
    have himportance := hinUse.importance t ht
    exact ⟨⟨husage.isNaN, husage.nonneg, husage.le_one⟩, himportance.isNaN, himportance.nonneg, himportance.le_one⟩
  · intro i t ht
    have hi : i < m.capacity := (Array.getElem?_eq_some_iff.mp ht).1
    rw [hinUse.filled i t ht, hoccupied]
    omega
  · intro hlt
    rw [hoccupied, hinUse.writes, UInt64.toNat_ofNat_of_lt' hlt]
  · intro value strength hv
    refine ⟨?_, fun hb => hranged.write_unbacked hb hv strength, ?_⟩
    · intro hzero
      rw [hzero] at hranged
      exact hranged.write_none hv strength
    · intro hpos hb
      obtain ⟨stored, m', t, hwrite, hkept, -, hhere, husage⟩ := h.write_taken hpos hb hv strength
      exact ⟨stored, m', t, hwrite, hkept, hhere, husage⟩

/-- A configuration of memories with that many slots. -/
def tablets (slots : ℕ) : Config := { memory := { slots, width := 54 } }

/-- Three writes into two slots, of strengths that are no number, too large and infinite, and then the record of it put
back into an empty memory. -/
theorem usage_and_occupancy_of_tablets : ∃ m₀ m r ws, Kept m₀ [] ∧ Kept m ws ∧ m.record = .ok r ∧
    m₀.restore r = .ok m ∧ ws.length = 3 ∧ m.capacity = 2 ∧ m.occupied = 2 ∧ m.writes = 3 ∧
    ∀ t ∈ m.slots, (0 ≤ t.usage ∧ t.usage ≤ 1) ∧ 0 ≤ t.importance ∧ t.importance ≤ 1 := by
  have hnext {m : Memory} {ws : List ℕ} (h : Kept m ws) (hranged : m.Ranged (tablets 2).memory 2)
      (strength : Float32) : ∃ m' slot, Kept m' (ws ++ [slot]) ∧ m'.Ranged (tablets 2).memory 2 := by
    have hpos : 0 < m.capacity := by
      rw [hranged.capacity]
      decide
    have hb : m.isBacked = true := hranged.isBacked.trans rfl
    have hv : (Vec.zeros m.width).size = m.width := Array.size_replicate
    obtain ⟨stored, m', -, -, h', hranged', -⟩ := h.write_taken hpos hb hv strength
    rw [hranged.config, hranged.capacity] at hranged'
    exact ⟨m', stored.slot, h', hranged'⟩
  have h₀ : Kept (empty (tablets 2).memory) [] := .new (rfl : (tablets 2).validate = .ok ()) rfl
  obtain ⟨m₁, i, h₁, hranged₁⟩ := hnext h₀ h₀.ranged (0 / 0)
  obtain ⟨m₂, j, h₂, hranged₂⟩ := hnext h₁ hranged₁ 7
  obtain ⟨m, k, h, hranged⟩ := hnext h₂ hranged₂ Single.infinity
  have hfits := h.written.holds.fits
  rw [hranged.config] at hfits
  obtain ⟨hslots, -, hoccupied, hwrites, -⟩ := h.usage_and_occupancy
  refine ⟨_, m, m.toRecord, _, h₀, h, hfits.record rfl, hfits.restore_toRecord rfl (fits_empty _), rfl,
    hranged.capacity, ?_, hwrites, ?_⟩
  · rw [hoccupied, hranged.capacity]
    rfl
  · intro t ht
    exact ⟨(hslots t ht).1.2, (hslots t ht).2.2⟩

/-- **The counter comes round.** A memory of one slot was written as often as there are words. The slot is occupied, and
the counter is at zero. -/
theorem occupied_but_uncounted : ∃ m ws, Kept m ws ∧ ws.length = UInt64.size ∧ m.capacity = 1 ∧ m.occupied = 1 ∧
    m.writes = 0 ∧ m.occupied ≠ min m.writes.toNat m.capacity := by
  have h₀ : Kept (empty (tablets 1).memory) [] := .new (rfl : (tablets 1).validate = .ok ()) rfl
  obtain ⟨m, ws, h, hlength, hranged⟩ := h₀.write_times Nat.one_pos rfl UInt64.size
  have hlength : ws.length = UInt64.size := hlength.trans (Nat.zero_add _)
  have hcapacity : m.capacity = 1 := hranged.capacity
  have hoccupied : m.occupied = 1 := by
    rw [h.inUse.filled.occupied_eq, hlength, hcapacity]
    rfl
  have hwrites : m.writes = 0 := by
    rw [h.inUse.writes, hlength]
    rfl
  refine ⟨m, ws, h, hlength, hcapacity, hoccupied, hwrites, ?_⟩
  rw [hoccupied, hwrites, hcapacity]
  decide

end NpcMind.Memory
