import NpcMind.Proofs.Recollection
import NpcMind.Proofs.Restoring

/-!
# Filling free slots

A write into a free slot leaves all that is held where it is. So whatever a query matched before, it still matches, and
as well as before; the new slot can only be a better match, or none. It follows that the best match of a query does not
get worse until all slots are occupied.
-/

namespace NpcMind.Memory

open Outcome

variable {m m' m'' : Memory} {b : Backend} {query value : Vec} {strength : Float32} {slot : ℕ} {t : Trace}

/-! ### What is still held -/

/-- The second memory holds all that the first one holds, in the same slots, and maybe more. -/
structure Keeps (m m' : Memory) : Prop where
  config : m'.config = m.config
  capacity : m'.capacity = m.capacity
  slots : ∀ (i : ℕ) (t : Trace), m.slots[i]? = some t → t.occupied = true →
    ∃ t', m'.slots[i]? = some t' ∧ t'.occupied = true ∧ t'.content = t.content

namespace Keeps

theorem refl (m : Memory) : m.Keeps m where
  config := rfl
  capacity := rfl
  slots := fun _ t ht ho => ⟨t, ht, ho, rfl⟩

theorem trans (h : m.Keeps m') (h' : m'.Keeps m'') : m.Keeps m'' where
  config := h'.config.trans h.config
  capacity := h'.capacity.trans h.capacity
  slots := by
    intro i t ht ho
    obtain ⟨t', ht', ho', hcontent⟩ := h.slots i t ht ho
    obtain ⟨t'', ht'', ho'', hcontent'⟩ := h'.slots i t' ht' ho'
    exact ⟨t'', ht'', ho'', hcontent'.trans hcontent⟩

theorem width (h : m.Keeps m') : m'.width = m.width := congrArg Config.Memory.width h.config

theorem isBacked (h : m.Keeps m') : m'.isBacked = m.isBacked := by
  rw [isBacked_eq, isBacked_eq, h.capacity, h.width]

/-- **The best match does not get worse.** -/
theorem anchor?_le {e : ℕ × Float32} (h : m.Keeps m') (he : m.anchor? b query = some e) :
    ∃ e', m'.anchor? b query = some e' ∧ e.2 ≤ e'.2 := by
  obtain ⟨t, ht, hs⟩ := (bestMatch_of_anchor? he).here
  obtain ⟨t', ht', ho', hcontent⟩ := h.slots e.1 t ht (isOccupied_of_score? hs).1
  have hs' : m'.score? b query t' = some e.2 := by
    rw [← hs, score?, score?, h.config, hcontent, ho', (isOccupied_of_score? hs).1]
  cases he' : m'.anchor? b query with
  | none =>
    have hnone := anchor?_eq_none he' t' (Array.mem_of_getElem? ht')
    rw [hs'] at hnone
    cases hnone
  | some e' => exact ⟨e', rfl, (bestMatch_of_anchor? he').best e.1 t' e.2 ht' hs'⟩

end Keeps

/-! ### One write -/

theorem occupied_hold {links : Links} (ht : m.slots[slot]? = some t) (hfree : t.occupied = false) :
    (m.hold slot value strength links).occupied = m.occupied + 1 := by
  obtain ⟨hslot, rfl⟩ := Array.getElem?_eq_some_iff.mp ht
  have hflags : (m.hold slot value strength links).slots.map Trace.occupied =
      (m.slots.map Trace.occupied).set slot true (by simpa using hslot) := by
    refine Array.ext (by simp [hold]) fun i hi hi' => ?_
    simp only [hold, Array.getElem_map, Array.getElem_mapIdx, Array.getElem_set, eq_comm (a := slot)]
    split <;> rfl
  have hcount (m : Memory) : m.occupied = (m.slots.map Trace.occupied).countP id := by
    rw [Array.countP_map]
    rfl
  rw [hcount, hcount, hflags, Array.countP_set]
  simp [hfree]

theorem Keeps.hold {links : Links} (ht : m.slots[slot]? = some t) (hfree : t.occupied = false) :
    m.Keeps (m.hold slot value strength links) where
  config := rfl
  capacity := capacity_hold
  slots := by
    intro i u hu ho
    have hi : i ≠ slot := by
      rintro rfl
      rw [Option.some.inj (hu.symm.trans ht), hfree] at ho
      cases ho
    refine ⟨{ u with usage := u.usage * m.config.usageDecay }, ?_, ho, rfl⟩
    rw [slots_hold_other hi, hu]
    rfl

/-- As long as a slot is free, a free one is taken. -/
theorem Chooses.vacant (h : m.Chooses slot t) (hroom : m.occupied < m.capacity) : t.occupied = false := by
  have hfull : ¬ ∀ u ∈ m.slots, u.occupied = true := by
    intro hall
    have hcount : m.occupied = m.capacity := Array.countP_eq_size.mpr hall
    omega
  cases h with
  | free _ vacant => exact vacant
  | leastUsed full => exact absurd full hfull
  | leastImportant full => exact absurd full hfull

/-- **A write into a memory with a free slot** leaves all that is held where it is. -/
theorem write_free (hlinks : m.links.Within m.capacity) (hb : m.isBacked = true) (hv : value.size = m.width)
    (hroom : m.occupied < m.capacity) (strength : Float32) : ∃ slot m',
      m.write value strength = .ok (some ⟨slot, false⟩, m') ∧ m.Keeps m' ∧
      m'.links.Within m'.capacity ∧ m'.occupied = m.occupied + 1 := by
  obtain ⟨slot, t, htarget, hchooses⟩ := target?_spec (Nat.zero_lt_of_lt hroom)
  have hfree := hchooses.vacant hroom
  obtain ⟨links, hlinks'⟩ := hlinks.recordWrite_ok (target?_lt htarget)
  have hwrite : m.write value strength = _ := write_of_target hv hb htarget hchooses.here hlinks'
  rw [hfree] at hwrite
  refine ⟨slot, _, hwrite, .hold hchooses.here hfree, ?_, occupied_hold hchooses.here hfree⟩
  rw [capacity_hold]
  exact hlinks.recordWrite hlinks'

/-! ### Writes in turn -/

/-- The memory after values were written in turn, each with its strength. -/
def writeAll (m : Memory) (entries : List (Vec × Float32)) : Outcome Memory :=
  entries.foldlM (fun m e => (m.write e.1 e.2).map Prod.snd) m

theorem writeAll_cons {e : Vec × Float32} {entries : List (Vec × Float32)} {stored : Option Stored}
    (h : m.write e.1 e.2 = .ok (stored, m')) : m.writeAll (e :: entries) = m'.writeAll entries := by
  simp only [writeAll, List.foldlM_cons, h]
  rfl

/-- **As many writes as there are free slots** all succeed, and leave what is held where it is. -/
theorem writeAll_free {entries : List (Vec × Float32)} (hlinks : m.links.Within m.capacity)
    (hb : m.isBacked = true) (hsizes : ∀ e ∈ entries, e.1.size = m.width)
    (hroom : m.occupied + entries.length ≤ m.capacity) : ∃ m', m.writeAll entries = .ok m' ∧ m.Keeps m' ∧
      m'.links.Within m'.capacity ∧ m'.occupied = m.occupied + entries.length := by
  induction entries generalizing m with
  | nil => exact ⟨m, rfl, .refl m, hlinks, rfl⟩
  | cons e entries ih =>
    rw [List.length_cons] at hroom
    obtain ⟨slot, m₁, hwrite, hkeeps, hlinks₁, hoccupied₁⟩ :=
      write_free hlinks hb (hsizes e List.mem_cons_self) (by omega) e.2
    have hsizes₁ : ∀ e ∈ entries, e.1.size = m₁.width := by
      intro f hf
      rw [hkeeps.width]
      exact hsizes f (List.mem_cons_of_mem e hf)
    have hroom₁ : m₁.occupied + entries.length ≤ m₁.capacity := by
      rw [hoccupied₁, hkeeps.capacity]
      omega
    obtain ⟨m', hrest, hkeeps', hlinks', hoccupied'⟩ := ih hlinks₁ (hkeeps.isBacked.trans hb) hsizes₁ hroom₁
    refine ⟨m', (writeAll_cons hwrite).trans hrest, hkeeps.trans hkeeps', hlinks', ?_⟩
    rw [hoccupied', hoccupied₁, List.length_cons]
    omega

/-! ### Reads in between -/

/-- A memory with a buffer finds the best match. -/
theorem read_anchor (hb : m.isBacked = true) (hheads : 1 ≤ m.config.readHeads) (hq : query.size = m.width) :
    ∃ found, m.read b query m.width = .ok found ∧ found.slot = (m.anchor? b query).map Prod.fst ∧
      ∀ e, m.anchor? b query = some e → found.score = e.2 := by
  have hcontents (i : ℕ) (t : Trace) (ht : m.slots[i]? = some t) (_ : t.occupied = true) :
      m.content? i = .ok t.content := by
    simp [content?, hb, ht]
  obtain ⟨hnone, hsome⟩ := read_eq (b := b) hcontents hheads hq
  cases hanchor : m.anchor? b query with
  | none => exact ⟨_, hnone hanchor, rfl, by simp⟩
  | some e =>
    obtain ⟨content, hread⟩ := hsome e hanchor
    refine ⟨_, hread, rfl, ?_⟩
    rintro _ ⟨⟩
    rfl

/-- A read with a match before finds one that is as good afterwards. -/
theorem Keeps.read_le {size : ℕ} {found : Recall} (h : m.Keeps m') (hb : m.isBacked = true)
    (hheads : 1 ≤ m.config.readHeads) (hread : m.read b query size = .ok found) (hfound : found.slot.isSome = true) :
    ∃ found', m'.read b query size = .ok found' ∧ found'.slot.isSome = true ∧ found.score ≤ found'.score := by
  obtain ⟨hq, rfl⟩ : query.size = m.width ∧ size = m.width := by
    obtain ⟨_, hcheck, -⟩ := ok_of_bind hread
    obtain ⟨_, hquery, hsize⟩ := ok_of_bind hcheck
    exact ⟨(eq_of_expectSize hquery).symm, (eq_of_expectSize hsize).symm⟩
  obtain ⟨_, hread', hslot, hscore⟩ := read_anchor (b := b) hb hheads hq
  obtain rfl := Except.ok.inj (hread.symm.trans hread')
  rw [hslot, Option.isSome_map] at hfound
  obtain ⟨e, he⟩ := Option.isSome_iff_exists.mp hfound
  obtain ⟨e', he', hle⟩ := h.anchor?_le he
  rw [← h.config] at hheads
  rw [← h.width] at hq ⊢
  obtain ⟨found', hread', hslot', hscore'⟩ := read_anchor (b := b) (h.isBacked.trans hb) hheads hq
  refine ⟨found', hread', ?_, ?_⟩
  · rw [hslot', he']
    rfl
  · rw [hscore e he, hscore' e' he']
    exact hle

/-- **Writes to free slots never lower the best score.** Let the links of `m` be `Within` its capacity, with at least
one read head. A write of the right size while `m.occupied < m.capacity` is out of bounds without a buffer, and
otherwise takes a free slot; a `read` that found a slot before then finds one whose score is at least as high. The
same holds between any two points `before` and `after` of a list of writes that fits into the free slots, which all
succeed. -/
theorem filling_never_lowers (hlinks : m.links.Within m.capacity) (hheads : 1 ≤ m.config.readHeads) (b : Backend)
    (query : Vec) (size : ℕ) :
    (∀ (value : Vec) (strength : Float32), value.size = m.width → m.occupied < m.capacity →
      (m.isBacked = false → m.write value strength = .error .outOfBounds) ∧
      (m.isBacked = true → ∃ slot m', m.write value strength = .ok (some ⟨slot, false⟩, m') ∧
        ∀ found, m.read b query size = .ok found → found.slot.isSome = true →
          ∃ found', m'.read b query size = .ok found' ∧ found'.slot.isSome = true ∧ found.score ≤ found'.score)) ∧
    (m.isBacked = true → ∀ before after : List (Vec × Float32), (∀ e ∈ before ++ after, e.1.size = m.width) →
      m.occupied + (before ++ after).length ≤ m.capacity →
      ∃ m₁ m₂, m.writeAll before = .ok m₁ ∧ m₁.writeAll after = .ok m₂ ∧
        ∀ found, m₁.read b query size = .ok found → found.slot.isSome = true →
          ∃ found', m₂.read b query size = .ok found' ∧ found'.slot.isSome = true ∧ found.score ≤ found'.score) := by
  refine ⟨fun value strength hv hroom => ⟨?_, ?_⟩, fun hb before after hsizes hroom => ?_⟩
  · intro hb
    exact Ranged.write_unbacked ⟨rfl, rfl, hlinks⟩ hb hv strength
  · intro hb
    obtain ⟨slot, m', hwrite, hkeeps, -⟩ := write_free hlinks hb hv hroom strength
    exact ⟨slot, m', hwrite, fun found hread hfound => hkeeps.read_le hb hheads hread hfound⟩
  · rw [List.length_append] at hroom
    obtain ⟨hbefore, hafter⟩ := List.forall_mem_append.mp hsizes
    obtain ⟨m₁, hwrite₁, hkeeps₁, hlinks₁, hoccupied₁⟩ := writeAll_free hlinks hb hbefore (by omega)
    have hb₁ : m₁.isBacked = true := hkeeps₁.isBacked.trans hb
    have hafter₁ : ∀ e ∈ after, e.1.size = m₁.width := by
      intro e he
      rw [hkeeps₁.width]
      exact hafter e he
    have hroom₁ : m₁.occupied + after.length ≤ m₁.capacity := by
      rw [hoccupied₁, hkeeps₁.capacity]
      omega
    obtain ⟨m₂, hwrite₂, hkeeps₂, -⟩ := writeAll_free hlinks₁ hb₁ hafter₁ hroom₁
    rw [← hkeeps₁.config] at hheads
    exact ⟨m₁, m₂, hwrite₁, hwrite₂, fun found hread hfound => hkeeps₂.read_le hb₁ hheads hread hfound⟩

/-- A memory of three slots, of which the second is occupied. -/
def opened : Memory where
  config := { slots := 3, width := 2, readHeads := 1, metric := .dot }
  slots := #[{ content := #[0, 0] }, ⟨#[1, 0], 1, 1, true⟩, { content := #[0, 0] }]
  links := ⟨#[none, none, none], #[none, none, none], some 1⟩
  writes := 1

/-- The first slot gets what cannot be compared with the query, and the last one what matches it better. -/
theorem filling_never_lowers_of_opened : opened.links.Within opened.capacity ∧ 1 ≤ opened.config.readHeads ∧
    ∃ found m' found', opened.read .scalar #[1, 0] 2 = .ok found ∧ found.slot = some 1 ∧
      opened.writeAll [(#[Single.infinity, Single.infinity], 1), (#[2, 0], 1)] = .ok m' ∧
      m'.read .scalar #[1, 0] 2 = .ok found' ∧ found'.slot = some 2 ∧ found.score ≤ found'.score := by
  have hlinks : opened.links.Within opened.capacity := ⟨rfl, rfl, by decide, by decide, rfl⟩
  obtain ⟨found, hread, hslot⟩ : ∃ found, opened.read .scalar #[1, 0] 2 = .ok found ∧ found.slot = some 1 := by
    obtain ⟨found, hread, -⟩ := read_ok (m := opened) rfl .scalar (rfl : (#[1, 0] : Vec).size = 2)
    have hslot : (opened.read .scalar #[1, 0] 2).map Recall.slot = .ok (some 1) := by decide +kernel
    rw [show (2 : ℕ) = opened.width from rfl, hread] at hslot
    exact ⟨found, hread, Except.ok.inj hslot⟩
  obtain ⟨m₁, m₂, hnone, hwrites, hreads⟩ := (filling_never_lowers hlinks (by decide) .scalar #[1, 0] 2).2 rfl []
    [(#[Single.infinity, Single.infinity], 1), (#[2, 0], 1)] (by decide) (by decide)
  cases hnone
  obtain ⟨found', hread', -, hle⟩ := hreads found hread (by rw [hslot]; rfl)
  have hslot' : ((opened.writeAll [(#[Single.infinity, Single.infinity], 1), (#[2, 0], 1)]).bind fun m =>
      (m.read .scalar #[1, 0] 2).map Recall.slot) = .ok (some 2) := by
    decide +kernel
  rw [hwrites] at hslot'
  change (m₂.read .scalar #[1, 0] 2).map Recall.slot = _ at hslot'
  rw [hread'] at hslot'
  exact ⟨hlinks, by decide, found, m₂, found', hread, hslot, hwrites, hread', Except.ok.inj hslot', hle⟩

end NpcMind.Memory
