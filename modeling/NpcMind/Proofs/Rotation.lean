import NpcMind.Proofs.Writes

/-!
# Slots are given up in turn

A slot that is written counts as fully used, and every write elsewhere takes a share of its usage away. As long as
usage fades to something new with every write, the slot that was written longest ago is the least used one, so the
slots are taken one after the other, round and round. What carries this through any number of writes is the exact
usage of each slot: it tells how many writes ago the slot was written, and nothing else.
-/

namespace NpcMind.Memory

variable {c : Config.Memory} {m m' m₀ : Memory} {k : Nat} {value : Vec} {strength : Float32} {stored : Stored}

/-- The usage of a slot that was written and then left alone for so many writes. -/
def faded (decay : Float32) : Nat → Float32
  | 0 => 1
  | j + 1 => faded decay j * decay

/-- Writes one after the other, and where they went. -/
inductive Wrote (m₀ : Memory) : List Stored → Memory → Prop
  | nil : Wrote m₀ [] m₀
  | write {out : List Stored} {m m' : Memory} {value : Vec} {strength : Float32} {stored : Stored}
      (h : Wrote m₀ out m) (hw : m.write value strength = .ok (some stored, m')) : Wrote m₀ (out ++ [stored]) m'

/-- The usage of a slot gets less with every write, and it is below the limit of wear when all others were written. -/
structure Fades (c : Config.Memory) : Prop where
  slots : 0 < c.slots
  strictly : ∀ j, j + 1 < c.slots →
    Single.rank (faded c.usageDecay (j + 1)) < Single.rank (faded c.usageDecay j)
  fresh : faded c.usageDecay (c.slots - 1) < c.saturation

/-- After `k` writes, the slots were taken in turn: those up to `k` are occupied, and the one written `j` writes ago
has faded as often. -/
structure Turning (c : Config.Memory) (k : Nat) (m : Memory) : Prop where
  fits : m.Fits c
  occupied : ∀ (i : Nat) (t : Trace), m.slots[i]? = some t → (t.occupied = true ↔ i < k)
  usage : ∀ (j : Nat) (t : Trace), j < min k c.slots → m.slots[(k - 1 - j) % c.slots]? = some t →
    t.usage = faded c.usageDecay j

/-! ### Whose turn it is -/

theorem Fades.lt (h : Fades c) {i j : Nat} (hij : i < j) (hj : j < c.slots) :
    Single.rank (faded c.usageDecay j) < Single.rank (faded c.usageDecay i) := by
  induction j with
  | zero => omega
  | succ j ih =>
    have hstep := h.strictly j hj
    by_cases heq : i = j
    · rw [heq]
      exact hstep
    · exact UInt32.lt_trans hstep (ih (by omega) (by omega))

/-- Once around, every slot was written some number of writes ago. -/
theorem exists_age {n i : Nat} (hi : i < n) (hk : n ≤ k) : ∃ j < n, (k - 1 - j) % n = i := by
  refine ⟨(k - 1 - i) % n, Nat.mod_lt _ (by omega), ?_⟩
  have hdiv := Nat.div_add_mod (k - 1 - i) n
  have hlt : (k - 1 - i) % n < n := Nat.mod_lt _ (by omega)
  have hback : k - 1 - (k - 1 - i) % n = i + n * ((k - 1 - i) / n) := by omega
  rw [hback, Nat.add_mul_mod_self_left, Nat.mod_eq_of_lt hi]

theorem Turning.slot (h : Turning c k m) {i : Nat} (hi : i < c.slots) : ∃ t, m.slots[i]? = some t :=
  ⟨_, Array.getElem?_eq_getElem (h.fits.size.symm ▸ hi)⟩

/-- At first the free slots are taken one by one. -/
theorem Turning.chooses_free (h : Turning c k m) (hk : k < c.slots) :
    ∃ t, m.Chooses k t ∧ t.occupied = false := by
  obtain ⟨t, ht⟩ := h.slot hk
  have hfree : t.occupied = false := by
    rw [← Bool.not_eq_true, h.occupied k t ht]
    omega
  exact ⟨t, .free ht hfree fun j u hj hu => (h.occupied j u hu).mpr hj, hfree⟩

/-- Then the one written longest ago is given up: all others have faded less. -/
theorem Turning.chooses_oldest (h : Turning c k m) (hf : Fades c) (hk : c.slots ≤ k) :
    ∃ t, m.Chooses (k % c.slots) t ∧ t.occupied = true := by
  have hpos := hf.slots
  have hlt : k % c.slots < c.slots := Nat.mod_lt _ hpos
  obtain ⟨t, ht⟩ := h.slot hlt
  have holdest : (k - 1 - (c.slots - 1)) % c.slots = k % c.slots := by
    rw [show k - 1 - (c.slots - 1) = k - c.slots by omega, ← Nat.mod_eq_sub_mod hk]
  have husage : t.usage = faded c.usageDecay (c.slots - 1) :=
    h.usage (c.slots - 1) t (by omega) (holdest ▸ ht)
  have hfull : ∀ u ∈ m.slots, u.occupied = true := by
    intro u hu
    obtain ⟨i, hi⟩ := Array.getElem?_of_mem hu
    have hsize := (Array.getElem?_eq_some_iff.mp hi).1
    rw [h.fits.size] at hsize
    exact (h.occupied i u hi).mpr (by omega)
  have hless : ∀ (i : Nat) (u : Trace), i ≠ k % c.slots → m.slots[i]? = some u → wear t < wear u := by
    intro i u hi hu
    have hsize := (Array.getElem?_eq_some_iff.mp hu).1
    rw [h.fits.size] at hsize
    obtain ⟨j, hj, rfl⟩ := exists_age hsize hk
    have hyounger : j < c.slots - 1 := by
      by_contra hlast
      obtain rfl : j = c.slots - 1 := by omega
      exact hi holdest
    have hrank := hf.lt hyounger (by omega)
    rw [wear, wear, husage, h.usage j u (by omega) hu]
    exact UInt32.lt_iff_toNat_lt.mp hrank
  refine ⟨t, .leastUsed hfull ⟨ht, fun i u hu => ?_, fun i u hi hu => ?_⟩ ?_, hfull t (Array.mem_of_getElem? ht)⟩
  · by_cases hi : i = k % c.slots
    · rw [hi, ht] at hu
      cases hu
      exact Nat.le_refl _
    · exact (hless i u hi hu).le
  · exact hless i u (by omega) hu
  · rw [husage, h.fits.config]
    exact hf.fresh

theorem Turning.chooses (h : Turning c k m) (hf : Fades c) :
    ∃ t, m.Chooses (k % c.slots) t ∧ (t.occupied = true ↔ c.slots ≤ k) := by
  by_cases hk : k < c.slots
  · obtain ⟨t, hchooses, hfree⟩ := h.chooses_free hk
    rw [Nat.mod_eq_of_lt hk]
    exact ⟨t, hchooses, by simp [hfree, hk]⟩
  · obtain ⟨t, hchooses, hfull⟩ := h.chooses_oldest hf (by omega)
    exact ⟨t, hchooses, by simp [hfull]; omega⟩

/-! ### One write and all writes -/

theorem turning_empty (c : Config.Memory) : Turning c 0 (empty c) where
  fits := fits_empty c
  occupied := by
    intro i t ht
    rw [(Array.mem_replicate.mp (Array.mem_of_getElem? ht)).2]
    simp [blank]
  usage := by
    intro j t hj
    omega

theorem Turning.hold {links : Links} (h : Turning c k m) (hpos : 0 < c.slots)
    (hfits : (m.hold (k % c.slots) value strength links).Fits c) :
    Turning c (k + 1) (m.hold (k % c.slots) value strength links) := by
  have hlt : k % c.slots < m.slots.size := by
    rw [h.fits.size]
    exact Nat.mod_lt _ hpos
  have hhere := slots_hold_here value strength links hlt
  refine ⟨hfits, fun i t ht => ?_, fun j t hj ht => ?_⟩
  · by_cases hi : i = k % c.slots
    · rw [hi, hhere] at ht
      cases ht
      have hle := Nat.mod_le k c.slots
      simp only [true_iff]
      omega
    · rw [slots_hold_other hi] at ht
      obtain ⟨u, hu, rfl⟩ := Option.map_eq_some_iff.mp ht
      have hsize := (Array.getElem?_eq_some_iff.mp hu).1
      rw [h.fits.size] at hsize
      have hne : i ≠ k := by
        rintro rfl
        exact hi (Nat.mod_eq_of_lt hsize).symm
      rw [h.occupied i u hu]
      omega
  · cases j with
    | zero =>
      rw [Nat.add_sub_cancel, Nat.sub_zero, hhere] at ht
      cases ht
      rfl
    | succ j =>
      -- One write longer ago than before, and not in the slot just written.
      have hback : k + 1 - 1 - (j + 1) = k - 1 - j := by omega
      have hother : (k - 1 - j) % c.slots ≠ k % c.slots := by
        intro heq
        have hzero := Nat.sub_mod_eq_zero_of_mod_eq heq.symm
        rw [show k - (k - 1 - j) = j + 1 by omega, Nat.mod_eq_of_lt (by omega)] at hzero
        omega
      rw [hback, slots_hold_other hother] at ht
      obtain ⟨u, hu, rfl⟩ := Option.map_eq_some_iff.mp ht
      simp only [faded, h.usage j u (by omega) hu, h.fits.config]

/-- **One write** takes the slot whose turn it is, and it is the next one's turn. -/
theorem Turning.write (h : Turning c k m) (hf : Fades c) (hw : m.write value strength = .ok (some stored, m')) :
    stored.slot = k % c.slots ∧ (stored.evicted = true ↔ c.slots ≤ k) ∧ Turning c (k + 1) m' := by
  have hfits := h.fits.write hw
  obtain ⟨u, links, -, -, hchosen, hevicted, -, rfl⟩ := of_write hw
  obtain ⟨t, hchooses, hoccupied⟩ := h.chooses hf
  have hslot : stored.slot = k % c.slots := hchosen.unique hchooses
  rw [hslot] at hchosen hfits ⊢
  obtain rfl : u = t := Option.some.inj (hchosen.here.symm.trans hchooses.here)
  rw [hevicted]
  exact ⟨rfl, hoccupied, h.hold hf.slots hfits⟩

/-- **All writes** leave the slots as they are after so many turns. -/
theorem Wrote.turning {out : List Stored} (h : Wrote (empty c) out m) (hf : Fades c) : Turning c out.length m ∧
    ∀ (k : Nat) (stored : Stored), out[k]? = some stored →
      stored.slot = k % c.slots ∧ (stored.evicted = true ↔ c.slots ≤ k) := by
  induction h with
  | nil => exact ⟨turning_empty c, by simp⟩
  | @write out m m' value strength stored h hw ih =>
    obtain ⟨hturning, hplaces⟩ := ih
    obtain ⟨hslot, hevicted, hnext⟩ := hturning.write hf hw
    rw [List.length_append, List.length_singleton]
    refine ⟨hnext, fun k stored' hk => ?_⟩
    rcases Nat.lt_trichotomy k out.length with hlt | rfl | hgt
    · rw [List.getElem?_append_left hlt] at hk
      exact hplaces k stored' hk
    · rw [List.getElem?_concat_length] at hk
      cases hk
      exact ⟨hslot, hevicted⟩
    · rw [List.getElem?_eq_none (by simp; omega)] at hk
      cases hk

/-- With a buffer there is no end to the writes, and without one there is no beginning. -/
theorem Turning.write_ok (h : Turning c k m) (hf : Fades c) (hv : value.size = c.width) (strength : Float32) :
    (hasBuffer c.slots c.width = true → ∃ stored m', m.write value strength = .ok (some stored, m')) ∧
    (hasBuffer c.slots c.width = false → m.write value strength = .error .outOfBounds) := by
  have hwidth : value.size = m.width := hv.trans (congrArg Config.Memory.width h.fits.config).symm
  have hcapacity : 0 < m.capacity := by
    rw [capacity, h.fits.size]
    exact hf.slots
  obtain ⟨slot, t, htarget, hchooses⟩ := target?_spec hcapacity
  refine ⟨fun hb => ?_, fun hb => ?_⟩
  · obtain ⟨links, hlinks⟩ := h.fits.links.recordWrite_ok (h.fits.size ▸ target?_lt htarget)
    exact ⟨_, _, write_of_target hwidth ((isBacked_iff h.fits).mpr (.inr hb)) htarget hchooses.here hlinks⟩
  · have hslots := hf.slots
    have hbacked : m.isBacked = false := by
      rw [← Bool.not_eq_true, isBacked_iff h.fits, hb]
      simp
      omega
    simp only [Memory.write, hwidth, Outcome.expectSize_ok, htarget, hbacked]
    rfl

/-- **Slots are taken in turn.** Let `c` be such that usage `Fades` below `saturation` within a round, and `out` be
where the writes into a new memory went (`Wrote`). Then write `k` went to slot `k % c.slots`, and evicted something if
and only if `c.slots ≤ k`; the slot written `j` writes ago has the usage `faded c.usageDecay j`. A value of the right
size can always be written next if there is a buffer (`hasBuffer`), and is out of bounds otherwise. -/
theorem evicts_in_turn (hm : ofConfig c = .ok m₀) (hf : Fades c) {out : List Stored} (h : Wrote m₀ out m) :
    (∀ (k : Nat) (stored : Stored), out[k]? = some stored →
      stored.slot = k % c.slots ∧ (stored.evicted = true ↔ c.slots ≤ k)) ∧
    (∀ j, j < min out.length c.slots → ∃ t, m.slots[(out.length - 1 - j) % c.slots]? = some t ∧
      t.usage = faded c.usageDecay j) ∧
    ∀ (value : Vec) (strength : Float32), value.size = c.width →
      (hasBuffer c.slots c.width = true → ∃ stored m', m.write value strength = .ok (some stored, m')) ∧
      (hasBuffer c.slots c.width = false → m.write value strength = .error .outOfBounds) := by
  rw [eq_empty_of_ofConfig hm] at h
  obtain ⟨hturning, hplaces⟩ := h.turning hf
  refine ⟨hplaces, fun j hj => ?_, fun value strength hv => hturning.write_ok hf hv strength⟩
  obtain ⟨t, ht⟩ := hturning.slot (Nat.mod_lt (out.length - 1 - j) hf.slots)
  exact ⟨t, ht, hturning.usage j t hj ht⟩

/-- A memory of three slots. -/
def brief : Config.Memory := { slots := 3, width := 2 }

theorem fades_brief : Fades brief where
  slots := by decide
  strictly := by
    intro j hj
    obtain rfl | rfl : j = 0 ∨ j = 1 := by
      change j + 1 < 3 at hj
      omega
    · decide +kernel
    · decide +kernel
  fresh := by decide +kernel

/-- The fourth write comes back to the first slot, though it is the one of most importance; the second has now faded
longest. -/
theorem evicts_in_turn_of_four : ofConfig brief = .ok (empty brief) ∧ Fades brief ∧ ∃ m t,
    Wrote (empty brief) [⟨0, false⟩, ⟨1, false⟩, ⟨2, false⟩, ⟨0, true⟩] m ∧
    m.slots[1]? = some t ∧ t.usage = faded brief.usageDecay 2 := by
  have hnext {out : List Stored} {m : Memory} (h : Wrote (empty brief) out m) (value : Vec) (strength : Float32)
      (hv : value.size = 2) : ∃ m', Wrote (empty brief) (out ++ [⟨out.length % 3, 3 ≤ out.length⟩]) m' := by
    obtain ⟨-, -, hwrite⟩ := evicts_in_turn rfl fades_brief h
    obtain ⟨stored, m', hm'⟩ := (hwrite value strength hv).1 (by decide)
    obtain ⟨hplaces, -⟩ := evicts_in_turn rfl fades_brief (.write h hm')
    obtain ⟨hslot, hevicted⟩ := hplaces out.length stored List.getElem?_concat_length
    obtain rfl : stored = ⟨out.length % 3, 3 ≤ out.length⟩ := by
      obtain ⟨slot, evicted⟩ := stored
      rw [Stored.mk.injEq]
      exact ⟨hslot, Bool.eq_iff_iff.mpr (hevicted.trans decide_eq_true_iff.symm)⟩
    exact ⟨m', .write h hm'⟩
  obtain ⟨m₁, h₁⟩ := hnext .nil #[1, 2] 1 rfl
  obtain ⟨m₂, h₂⟩ := hnext h₁ #[1, 2] 0.5 rfl
  obtain ⟨m₃, h₃⟩ := hnext h₂ #[0, 4] (1 / 0) rfl
  obtain ⟨m₄, h₄⟩ := hnext h₃ #[0, 4] 0 rfl
  obtain ⟨-, husage, -⟩ := evicts_in_turn rfl fades_brief h₄
  obtain ⟨t, ht, hfaded⟩ := husage 2 (by decide)
  exact ⟨rfl, fades_brief, m₄, t, h₄, ht, hfaded⟩

end NpcMind.Memory
