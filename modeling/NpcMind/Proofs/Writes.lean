import NpcMind.Proofs.Memories
import Mathlib.Data.Prod.Lex

/-!
# What a write does

A write takes the first free slot. If there is none, it takes the least used one, or the least important one
once even the least used is worn, and of several that are alike the first. Usage and importance are compared by
`Single.rank`, the order of their bits, so there is a least one whatever they are: `NaN` comes after every number.

The slot taken then holds the value, scaled by the strength of the write. Every other slot keeps what it holds
and is a little less used than before; in the buffer no row but one has changed.
-/

namespace NpcMind.Memory

open Outcome

variable {m m' : Memory} {slot i : Nat} {t : Trace} {value : Vec} {strength : Float32}

/-! ### The slot that is taken -/

/-- How used a slot is: the place of `usage` in the order of `Single.rank`, where `NaN` comes last. -/
def wear (t : Trace) : Nat := (Single.rank t.usage).toNat

/-- How important a slot is, and then how used, both by `Single.rank`. -/
def worth (t : Trace) : Nat ×ₗ Nat := toLex ((Single.rank t.importance).toNat, wear t)

theorem lessUsed_iff {t u : Trace} : lessUsed t u = true ↔ wear t < wear u := by
  simp only [lessUsed, wear, decide_eq_true_eq, UInt32.lt_iff_toNat_lt]

theorem lessImportant_iff {t u : Trace} : lessImportant t u = true ↔ worth t < worth u := by
  simp only [lessImportant, Bool.or_eq_true, Bool.and_eq_true, decide_eq_true_eq, beq_iff_eq, lessUsed_iff,
    UInt32.lt_iff_toNat_lt, ← UInt32.toNat_inj, worth, Prod.Lex.toLex_lt_toLex]

section FirstLeast

variable {κ : Type} [LinearOrder κ] {key : Trace → κ} {less : Trace → Trace → Bool} {slots : Array Trace}

/-- The first of the slots with the least key. -/
structure FirstLeast (key : Trace → κ) (slots : Array Trace) (i : Nat) (t : Trace) : Prop where
  here : slots[i]? = some t
  least : ∀ (j : Nat) (u : Trace), slots[j]? = some u → key t ≤ key u
  first : ∀ (j : Nat) (u : Trace), j < i → slots[j]? = some u → key t < key u

theorem FirstLeast.unique {j : Nat} {u : Trace} (hi : FirstLeast key slots i t) (hj : FirstLeast key slots j u) :
    i = j := by
  rcases Nat.lt_trichotomy i j with hlt | heq | hgt
  · exact absurd (hi.least j u hj.here) (not_le.mpr (hj.first i t hlt hi.here))
  · exact heq
  · exact absurd (hj.least i t hi.here) (not_le.mpr (hi.first j u hgt hj.here))

theorem ranks_of_key (hless : ∀ t u, less t u = true ↔ key t < key u) : Layout.Ranks less where
  asymm {t u} h := by
    rw [← Bool.not_eq_true, hless]
    exact ((hless t u).mp h).asymm
  between {t v} h u := by
    rw [hless, hless]
    exact LT.lt.gt_or_lt ((hless t v).mp h) (key u)

theorem leastBy_eq (less : Trace → Trace → Bool) (slots : Array Trace) :
    leastBy less slots = Layout.best? less slots.toList := by
  unfold leastBy Layout.best?
  refine congrArg (fun step => slots.toList.zipIdx.foldl step none) ?_
  funext best e
  cases best <;> rfl

/-- A search by an order finds the first slot with the least key. -/
theorem leastBy_spec (hless : ∀ t u, less t u = true ↔ key t < key u) (hne : 0 < slots.size) :
    ∃ i t, leastBy less slots = some (i, t) ∧ FirstLeast key slots i t := by
  have hget (j : Nat) : slots[j]? = slots.toList[j]? := Array.getElem?_toList.symm
  rw [leastBy_eq]
  obtain ⟨hnil, -⟩ | ⟨before, t, after, hslots, hbest, hleast⟩ :=
    Layout.best?_spec (ranks_of_key hless) slots.toList
  · rw [← Array.length_toList, hnil] at hne
    exact absurd hne (Nat.lt_irrefl 0)
  · have hfront : ∀ j u, j < before.length → slots[j]? = some u → key t < key u := by
      intro j u hj hu
      rw [hget, hslots, List.getElem?_append_left hj] at hu
      exact (hless t u).mp (hleast.front u (List.mem_of_getElem? hu))
    refine ⟨before.length, t, hbest, ⟨?_, fun j u hu => ?_, hfront⟩⟩
    · rw [hget, hslots]
      simp
    · by_cases hj : j < before.length
      · exact (hfront j u hj hu).le
      · rw [hget, hslots, List.getElem?_append_right (by omega)] at hu
        rcases List.mem_cons.mp (List.mem_of_getElem? hu) with rfl | hmem
        · exact le_rfl
        · have hbehind := hleast.behind u hmem
          rw [← Bool.not_eq_true, hless] at hbehind
          exact not_lt.mp hbehind

end FirstLeast

/-- The slot to be written next: the first free one; or else the first of least `wear`, if its usage is below
`saturation`; or else the first of least `worth`. A usage that is `NaN` is not below `saturation`. -/
inductive Chooses (m : Memory) (slot : Nat) (t : Trace) : Prop
  | free (here : m.slots[slot]? = some t) (vacant : t.occupied = false)
      (first : ∀ j u, j < slot → m.slots[j]? = some u → u.occupied = true)
  | leastUsed (full : ∀ u ∈ m.slots, u.occupied = true) (least : FirstLeast wear m.slots slot t)
      (fresh : t.usage < m.config.saturation)
  | leastImportant (full : ∀ u ∈ m.slots, u.occupied = true) {j : Nat} {u : Trace}
      (leastWorn : FirstLeast wear m.slots j u) (worn : ¬ u.usage < m.config.saturation)
      (least : FirstLeast worth m.slots slot t)

namespace Chooses

theorem here (h : m.Chooses slot t) : m.slots[slot]? = some t := by
  cases h with
  | free here => exact here
  | leastUsed _ least => exact least.here
  | leastImportant _ _ _ least => exact least.here

/-- The rule leaves no choice. -/
theorem unique {u : Trace} (h : m.Chooses slot t) (h' : m.Chooses i u) : slot = i := by
  have hvacant {j k : Nat} {u v : Trace} (hu : m.slots[j]? = some u) (hfree : u.occupied = false)
      (hk : ∀ j u, j < k → m.slots[j]? = some u → u.occupied = true) (hv : m.slots[k]? = some v) : k ≤ j := by
    by_contra hlt
    rw [hk j u (by omega) hu] at hfree
    cases hfree
  have hfull {j : Nat} {u : Trace} (hu : m.slots[j]? = some u) (hfree : u.occupied = false)
      (hall : ∀ u ∈ m.slots, u.occupied = true) : False := by
    rw [hall u (Array.mem_of_getElem? hu)] at hfree
    cases hfree
  rcases h with ⟨here, vacant, first⟩ | ⟨full, least, fresh⟩ | ⟨full, leastWorn, worn, least⟩ <;>
    rcases h' with ⟨here', vacant', first'⟩ | ⟨full', least', fresh'⟩ | ⟨full', leastWorn', worn', least'⟩
  · exact Nat.le_antisymm (hvacant here' vacant' first here) (hvacant here vacant first' here')
  · exact (hfull here vacant full').elim
  · exact (hfull here vacant full').elim
  · exact (hfull here' vacant' full).elim
  · exact least.unique least'
  · obtain rfl := least.unique leastWorn'
    obtain rfl := Option.some.inj (least.here.symm.trans leastWorn'.here)
    exact absurd fresh worn'
  · exact (hfull here' vacant' full).elim
  · obtain rfl := leastWorn.unique least'
    obtain rfl := Option.some.inj (leastWorn.here.symm.trans least'.here)
    exact absurd fresh' worn
  · exact least.unique least'

end Chooses

/-- **A memory with slots has one to be written.** -/
theorem target?_spec (h : 0 < m.capacity) : ∃ slot t, m.target? = some slot ∧ m.Chooses slot t := by
  unfold target?
  cases hfree : m.slots.findIdx? (!·.occupied) with
  | some slot =>
    obtain ⟨hlt, hvacant, hbefore⟩ := Array.findIdx?_eq_some_iff_getElem.mp hfree
    refine ⟨slot, m.slots[slot], rfl, .free (Array.getElem?_eq_getElem hlt) (by simpa using hvacant) ?_⟩
    intro j u hj hu
    obtain ⟨hj', rfl⟩ := Array.getElem?_eq_some_iff.mp hu
    simpa using hbefore j hj
  | none =>
    have hfull : ∀ u ∈ m.slots, u.occupied = true := by
      intro u hu
      simpa using Array.findIdx?_eq_none_iff.mp hfree u hu
    obtain ⟨i, t, hused, hleast⟩ := leastBy_spec (fun t u => lessUsed_iff (t := t) (u := u)) h
    simp only [hused]
    by_cases hfresh : t.usage < m.config.saturation
    · exact ⟨i, t, if_pos hfresh, .leastUsed hfull hleast hfresh⟩
    · obtain ⟨j, u, himportant, hworth⟩ := leastBy_spec (fun t u => lessImportant_iff (t := t) (u := u)) h
      exact ⟨j, u, by rw [if_neg hfresh, himportant]; rfl, .leastImportant hfull hleast hfresh hworth⟩

theorem target?_eq_none (h : m.capacity = 0) : m.target? = none := by
  cases htarget : m.target? with
  | none => rfl
  | some slot =>
    have hlt := target?_lt htarget
    rw [capacity] at h
    omega

/-- Where there is a slot, and a buffer for it, the value goes into one. -/
theorem Fits.write_some {c : Config.Memory} (h : m.Fits c) (hb : m.isBacked = true) (hslots : 0 < c.slots) {value : Vec}
    (hv : value.size = c.width) (strength : Float32) :
    ∃ stored m', m.write value strength = .ok (some stored, m') := by
  have hwidth : m.width = value.size := (congrArg Config.Memory.width h.config).trans hv.symm
  have hcapacity : 0 < m.capacity := by
    rw [capacity, h.size]
    exact hslots
  obtain ⟨slot, _, htarget, -⟩ := target?_spec hcapacity
  obtain ⟨links, hlinks⟩ := h.links.recordWrite_ok (h.size ▸ target?_lt htarget)
  simp only [Memory.write, hwidth, expectSize_ok, bind, Except.bind, htarget, hlinks, hb, Bool.not_true,
    Bool.false_eq_true, if_false]
  exact ⟨_, _, rfl⟩

/-! ### The slots afterwards -/

/-- Everything that a memory consists of has the right length; what its slots hold, and how used, important and
occupied they are, is left open. -/
structure Shaped (m : Memory) : Prop where
  links : m.links.Within m.capacity
  contents : ∀ t ∈ m.slots, t.content.size = m.width
  backed : m.isBacked = true

theorem Fits.shaped {c : Config.Memory} (h : m.Fits c) (hb : m.isBacked = true) : m.Shaped where
  links := by
    rw [capacity, h.size]
    exact h.links
  contents := by
    intro t ht
    rw [width, h.config]
    rcases (isBacked_iff h).mp hb with hzero | hbuffer
    · rw [← h.size] at hzero
      rw [Array.size_eq_zero_iff.mp hzero] at ht
      simp at ht
    · exact h.contents t ht (.inl hbuffer)
  backed := hb

/-- What the buffer holds for a slot: its content, and the filling. -/
def stretch (width : Nat) (t : Trace) : Vec := t.content ++ Vec.zeros (paddedStride width - width)

theorem toList_contents (m : Memory) :
    m.contents.data.toList = m.slots.toList.flatMap fun t => (stretch m.width t).toList := by
  have hdata : m.contents.data = m.slots.foldl (fun data t => data ++ stretch m.width t) #[] := by
    simp only [contents, stretch, Array.append_assoc]
  rw [hdata, ← Array.foldl_toList, Layout.toList_foldl_append (stretch m.width)]
  simp

theorem Shaped.hasBuffer (h : m.Shaped) (ht : m.slots[i]? = some t) :
    m.width ≤ paddedStride m.width ∧ m.capacity * paddedStride m.width < UInt64.size := by
  obtain ⟨hi, -⟩ := Array.getElem?_eq_some_iff.mp ht
  have hne : m.slots.isEmpty = false := by
    rw [← Bool.not_eq_true, Array.isEmpty_iff_size_eq_zero]
    omega
  simpa [isBacked, hne, Memory.hasBuffer] using h.backed

/-- **The buffer has the contents of the slots as its rows.** -/
theorem Shaped.row_contents (h : m.Shaped) (ht : m.slots[i]? = some t) : m.contents.row? i = .ok t.content := by
  obtain ⟨hi, -⟩ := Array.getElem?_eq_some_iff.mp ht
  obtain ⟨hstride, hfits⟩ := h.hasBuffer ht
  have hwidth := h.contents t (Array.mem_of_getElem? ht)
  have hblocks : ∀ t ∈ m.slots.toList, (stretch m.width t).size = paddedStride m.width := by
    intro t ht
    have hwidth := h.contents t (Array.mem_toList_iff.mp ht)
    simp only [stretch, Array.size_append, Vec.zeros, Array.size_replicate]
    omega
  have hsize : m.contents.data.size = m.capacity * paddedStride m.width := by
    rw [← Array.length_toList, toList_contents, Layout.length_flatMap_of_blocks hblocks, Array.length_toList,
      capacity]
  -- The row ends within the buffer, so its addresses do not wrap.
  have hend : (i + 1) * paddedStride m.width ≤ m.capacity * paddedStride m.width :=
    Nat.mul_le_mul_right _ hi
  have hrow := Layout.extract_blocks hblocks (toList_contents m) (by rw [Array.getElem?_toList]; exact ht)
  rw [Nat.succ_mul] at hend hrow
  have hstart : wrap (i * paddedStride m.width) = i * paddedStride m.width := Nat.mod_eq_of_lt (by omega)
  have hstop : wrap (i * paddedStride m.width + m.width) = i * paddedStride m.width + m.width :=
    Nat.mod_eq_of_lt (by omega)
  have hslice : m.contents.data.extract (i * paddedStride m.width) (i * paddedStride m.width + m.width) =
      t.content := by
    have hcut := congrArg (fun xs => xs.extract 0 m.width) hrow
    simp only [Array.extract_extract, stretch] at hcut
    rw [Nat.add_zero, Nat.min_eq_left (by omega)] at hcut
    rw [hcut, ← hwidth, Array.extract_append_left, Array.extract_size]
  show m.contents.slice? (wrap (i * paddedStride m.width)) m.width = _
  rw [Tensor.slice?, hstart, hstop, hsize, if_pos ⟨by omega, by omega⟩, hslice]

/-- The memory after a value went into a slot. -/
def hold (m : Memory) (slot : Nat) (value : Vec) (strength : Float32) (links : Links) : Memory :=
  { m with
    slots := m.slots.mapIdx fun i t =>
      if i = slot then ⟨value.map (· * strength), 1, strength, true⟩
      else { t with usage := t.usage * m.config.usageDecay }
    links
    writes := m.writes + 1 }

theorem slots_hold_here (value : Vec) (strength : Float32) (links : Links) (hslot : slot < m.slots.size) :
    (m.hold slot value strength links).slots[slot]? = some ⟨value.map (· * strength), 1, strength, true⟩ := by
  simp [hold, hslot]

theorem slots_hold_other {links : Links} (hi : i ≠ slot) : (m.hold slot value strength links).slots[i]? =
    (m.slots[i]?).map fun t => { t with usage := t.usage * m.config.usageDecay } := by
  simp [hold, hi]

/-- A slot afterwards is the one that was taken, or one from before that is less used. -/
theorem mem_slots_hold {links : Links} (h : t ∈ (m.hold slot value strength links).slots) :
    t = ⟨value.map (· * strength), 1, strength, true⟩ ∨
      ∃ u ∈ m.slots, t = { u with usage := u.usage * m.config.usageDecay } := by
  obtain ⟨i, hi, rfl⟩ := Array.mem_mapIdx.mp h
  split
  · exact .inl rfl
  · exact .inr ⟨m.slots[i], Array.getElem_mem hi, rfl⟩

theorem capacity_hold {links : Links} : (m.hold slot value strength links).capacity = m.capacity :=
  Array.size_mapIdx

theorem Shaped.hold {links : Links} (h : m.Shaped) (hv : value.size = m.width)
    (hlinks : links.Within m.capacity) : (m.hold slot value strength links).Shaped where
  links := by
    rw [capacity_hold]
    exact hlinks
  contents := by
    intro t ht
    rcases mem_slots_hold ht with rfl | ⟨u, hu, rfl⟩
    · exact Array.size_map.trans hv
    · exact h.contents u hu
  backed := by
    have hsize : (m.hold slot value strength links).slots.size = m.slots.size := Array.size_mapIdx
    have hbacked := h.backed
    unfold isBacked capacity Array.isEmpty at hbacked ⊢
    rw [hsize]
    exact hbacked

theorem write_of_target {links : Links} (hv : value.size = m.width) (hb : m.isBacked = true)
    (htarget : m.target? = some slot) (ht : m.slots[slot]? = some t)
    (hlinks : m.links.recordWrite slot = .ok links) : m.write value strength =
      .ok (some ⟨slot, t.occupied⟩, m.hold slot value (strengthOf strength) links) := by
  simp only [write, hv, expectSize_ok, htarget, hb, ht, hlinks, bind, Except.bind, Bool.not_true,
    Bool.false_eq_true, if_false]
  rfl

/-- **What was done if something was written.** -/
theorem of_write {stored : Stored} (h : m.write value strength = .ok (some stored, m')) :
    ∃ t links, value.size = m.width ∧ m.isBacked = true ∧ m.Chooses stored.slot t ∧
      stored.evicted = t.occupied ∧ m.links.recordWrite stored.slot = .ok links ∧
      m' = m.hold stored.slot value (strengthOf strength) links := by
  have hwrite := h
  unfold write at h
  obtain ⟨_, hsize, h⟩ := ok_of_bind h
  have hv := (eq_of_expectSize hsize).symm
  split at h
  · cases h
  · next slot htarget =>
    have hcapacity : 0 < m.capacity := Nat.zero_lt_of_lt (target?_lt htarget)
    obtain ⟨slot', t, htarget', hchooses⟩ := target?_spec hcapacity
    obtain rfl : slot = slot' := Option.some.inj (htarget.symm.trans htarget')
    dsimp only at h
    split at h
    · cases h
    · next hb =>
      have hb : m.isBacked = true := by simpa using hb
      obtain ⟨links, hlinks, -⟩ := ok_of_bind h
      rw [write_of_target hv hb htarget hchooses.here hlinks] at hwrite
      cases hwrite
      exact ⟨t, links, hv, hb, hchooses, rfl, hlinks, rfl⟩

/-! ### One slot and no other -/

/-- What a write of a value leaves behind. Everything stays as it is in the other slots, but that they are less
used, and in their rows of the buffer. -/
structure Overwrites (m : Memory) (slot : Nat) (value : Vec) (strength : Float32) (m' : Memory) : Prop where
  config : m'.config = m.config
  capacity : m'.capacity = m.capacity
  writes : m'.writes = m.writes + 1
  here : m'.slots[slot]? = some
    { content := value.map (· * strength), usage := 1, importance := strength, occupied := true }
  others : ∀ i t, i ≠ slot → m.slots[i]? = some t →
    m'.slots[i]? = some { t with usage := t.usage * m.config.usageDecay }
  row : m'.contents.row? slot = .ok (value.map (· * strength))
  otherRows : ∀ i, i < m.capacity → i ≠ slot → m'.contents.row? i = m.contents.row? i

/-- **`write` takes the slot of `Chooses` and leaves all others alone.** For every `m` whose buffer has room for its
slots and whose links are in range, whatever the usage, importance and occupancy: a `value` whose size is not
`m.width` is refused with the error on the memory write; with `m.capacity = 0` the answer is `none` and the memory
stays `m`; otherwise there is a slot that `m.Chooses`, the answer names it and says whether it was occupied, and
`m.Overwrites` it with `value` scaled by `strength` confined to `[0, 1]`, or by zero if `strength` is not finite. -/
theorem Shaped.writes_one_slot (h : m.Shaped) (value : Vec) (strength : Float32) :
    (value.size ≠ m.width →
      m.write value strength = .error (.dimension "memory write" m.width value.size)) ∧
    (value.size = m.width → m.capacity = 0 → m.write value strength = .ok (none, m)) ∧
    (value.size = m.width → 0 < m.capacity → ∃ slot t m', m.Chooses slot t ∧
      m.write value strength = .ok (some ⟨slot, t.occupied⟩, m') ∧
      m.Overwrites slot value (if strength.isFinite then Single.clamp 0 1 strength else 0) m') := by
  refine ⟨fun hv => ?_, fun hv hzero => ?_, fun hv hpos => ?_⟩
  · have hne : ¬ m.width = value.size := fun heq => hv heq.symm
    simp only [write, expectSize, if_neg hne]
    rfl
  · simp only [write, hv, expectSize_ok, target?_eq_none hzero]
    rfl
  · obtain ⟨slot, t, htarget, hchooses⟩ := target?_spec hpos
    have hslot := target?_lt htarget
    obtain ⟨links, hlinks⟩ := h.links.recordWrite_ok hslot
    have hshaped : (m.hold slot value (strengthOf strength) links).Shaped :=
      h.hold hv (h.links.recordWrite hlinks)
    have hhere := slots_hold_here value (strengthOf strength) links hslot
    have hothers (i : Nat) (u : Trace) (hi : i ≠ slot) (hu : m.slots[i]? = some u) :
        (m.hold slot value (strengthOf strength) links).slots[i]? =
          some { u with usage := u.usage * m.config.usageDecay } := by
      rw [slots_hold_other hi, hu]
      rfl
    refine ⟨slot, t, _, hchooses, write_of_target hv h.backed htarget hchooses.here hlinks, rfl, capacity_hold, rfl,
      hhere, fun i u hi hu => hothers i u hi hu, hshaped.row_contents hhere, fun i hlt hi => ?_⟩
    have hu := Array.getElem?_eq_getElem hlt
    rw [hshaped.row_contents (hothers i _ hi hu), h.row_contents hu]

/-- A memory whose slots are all occupied and worn. The first two are of the same importance, and the usage of the
first is `NaN`. -/
def worn : Memory where
  config := { slots := 3, width := 2, saturation := 0.5 }
  slots := #[⟨#[1, 0], 0 / 0, 0.2, true⟩, ⟨#[0, 1], 0.75, 0.2, true⟩, ⟨#[1, 1], 0.625, 0.9, true⟩]
  links := .ofSize 3

/-- The third slot is used least, but above `saturation`, so that importance decides. Of the two that are alike in it
the second goes: `NaN` comes after its usage, although it stands in front. -/
theorem writes_one_slot_of_worn : worn.Shaped ∧ ∃ t m', worn.Chooses 1 t ∧
    worn.write #[4, 8] 0.5 = .ok (some ⟨1, true⟩, m') ∧ worn.Overwrites 1 #[4, 8] 0.5 m' := by
  have hshaped : worn.Shaped := ⟨Links.within_ofSize 3, by decide, rfl⟩
  obtain ⟨slot, t, m', hchooses, hwrite, hover⟩ := (hshaped.writes_one_slot #[4, 8] 0.5).2.2 rfl (by decide)
  have hslot : (worn.write #[4, 8] 0.5).map Prod.fst = .ok (some ⟨1, true⟩) := by decide +kernel
  rw [hwrite] at hslot
  obtain ⟨rfl, hoccupied⟩ : slot = 1 ∧ t.occupied = true := by
    simpa [Except.map] using hslot
  rw [hoccupied] at hwrite
  exact ⟨hshaped, t, m', hchooses, hwrite, hover⟩

end NpcMind.Memory
