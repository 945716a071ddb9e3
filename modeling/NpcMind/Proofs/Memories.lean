import NpcMind.Memory.Board
import NpcMind.Proofs.Layout
import NpcMind.Proofs.Outcome

/-!
# Memories keep their shape

Whatever is written to a memory, it keeps its slots, every slot its width, and the links lead from slot to
slot. So a memory that has a buffer can be saved and put back: nothing of it is lost.
-/

namespace NpcMind

open Outcome

namespace Links

variable {l l' : Links} {slots slot : Nat} {links links' : Array (Option Nat)} {target : Option Nat}

/-- There are as many links each way as slots, and they lead to none but these. -/
structure Within (slots : Nat) (l : Links) : Prop where
  next_size : l.next.size = slots
  prev_size : l.prev.size = slots
  next : ∀ x ∈ l.next, inRange slots x = true
  prev : ∀ x ∈ l.prev, inRange slots x = true
  last : inRange slots l.last = true

theorem validate_iff : l.validate slots = .ok () ↔ l.Within slots := by
  constructor
  · intro h
    unfold validate at h
    obtain ⟨_, hnext, h⟩ := ok_of_bind h
    obtain ⟨_, hprev, h⟩ := ok_of_bind h
    split at h
    · next hall =>
      simp only [Bool.and_eq_true, Array.all_eq_true_iff_forall_mem] at hall
      exact ⟨(eq_of_expectSize hnext).symm, (eq_of_expectSize hprev).symm, hall.1.1, hall.1.2, hall.2⟩
    · cases h
  · intro h
    have hall :
        (l.next.all (inRange slots) && l.prev.all (inRange slots) && inRange slots l.last) = true := by
      simp only [Bool.and_eq_true, Array.all_eq_true_iff_forall_mem]
      exact ⟨⟨h.next, h.prev⟩, h.last⟩
    have hnext : expectSize "temporal links" slots l.next.size = .ok () := by
      rw [h.next_size, expectSize_ok]
    have hprev : expectSize "temporal links" slots l.prev.size = .ok () := by
      rw [h.prev_size, expectSize_ok]
    simp only [validate, hnext, hprev, bind, Except.bind]
    exact if_pos hall

theorem within_ofSize (slots : Nat) : (ofSize slots).Within slots where
  next_size := Array.size_replicate
  prev_size := Array.size_replicate
  next := fun x hx => by rw [(Array.mem_replicate.mp hx).2]; rfl
  prev := fun x hx => by rw [(Array.mem_replicate.mp hx).2]; rfl
  last := rfl

theorem Within.clear (h : l.Within slots) : l.clear = ofSize slots := by
  simp only [Links.clear, ofSize, Array.map_const', h.next_size, h.prev_size]

theorem slot_lt_of_look {link : Option Nat} (h : look links slot = .ok link) : slot < links.size := by
  unfold look at h
  split at h
  · next hl => exact (Array.getElem?_eq_some_iff.mp hl).1
  · cases h

/-- Another link in its place. -/
theorem link_cases (h : link links slot target = .ok links') (ht : inRange slots target = true)
    (hall : ∀ x ∈ links, inRange slots x = true) :
    links'.size = links.size ∧ ∀ x ∈ links', inRange slots x = true := by
  unfold link at h
  split at h
  · cases h
    refine ⟨Array.size_setIfInBounds, fun x hx => ?_⟩
    rcases Array.mem_or_eq_of_mem_setIfInBounds hx with hx | rfl
    · exact hall x hx
    · exact ht
  · cases h

theorem Within.cutBefore (h : l.Within slots) (hcut : l.cutBefore slot = .ok l') :
    l'.Within slots ∧ slot < slots := by
  unfold Links.cutBefore at hcut
  obtain ⟨before, hlook, hcut⟩ := ok_of_bind hcut
  have hslot : slot < slots := h.prev_size ▸ slot_lt_of_look hlook
  cases before with
  | none =>
    cases hcut
    exact ⟨h, hslot⟩
  | some before =>
    obtain ⟨prev, hprev, hcut⟩ := ok_of_bind hcut
    obtain ⟨next, hnext, hcut⟩ := ok_of_bind hcut
    cases hcut
    obtain ⟨hps, hpall⟩ := link_cases hprev rfl h.prev
    obtain ⟨hns, hnall⟩ := link_cases hnext rfl h.next
    exact ⟨⟨hns.trans h.next_size, hps.trans h.prev_size, hnall, hpall, h.last⟩, hslot⟩

theorem Within.cutAfter (h : l.Within slots) (hcut : l.cutAfter slot = .ok l') : l'.Within slots := by
  unfold Links.cutAfter at hcut
  obtain ⟨after, -, hcut⟩ := ok_of_bind hcut
  cases after with
  | none =>
    cases hcut
    exact h
  | some after =>
    obtain ⟨next, hnext, hcut⟩ := ok_of_bind hcut
    obtain ⟨prev, hprev, hcut⟩ := ok_of_bind hcut
    cases hcut
    obtain ⟨hns, hnall⟩ := link_cases hnext rfl h.next
    obtain ⟨hps, hpall⟩ := link_cases hprev rfl h.prev
    exact ⟨hns.trans h.next_size, hps.trans h.prev_size, hnall, hpall, h.last⟩

theorem Within.append (h : l.Within slots) (hslot : slot < slots) (happ : l.append slot = .ok l') :
    l'.Within slots := by
  have hrange : inRange slots (some slot) = true := decide_eq_true hslot
  unfold Links.append at happ
  split at happ
  · cases happ
    exact ⟨h.next_size, h.prev_size, h.next, h.prev, hrange⟩
  · next last hlast =>
    split at happ
    · cases happ
      exact h
    · obtain ⟨next, hnext, happ⟩ := ok_of_bind happ
      obtain ⟨prev, hprev, happ⟩ := ok_of_bind happ
      cases happ
      obtain ⟨hns, hnall⟩ := link_cases hnext hrange h.next
      obtain ⟨hps, hpall⟩ := link_cases hprev (hlast ▸ h.last) h.prev
      exact ⟨hns.trans h.next_size, hps.trans h.prev_size, hnall, hpall, hrange⟩

theorem Within.recordWrite (h : l.Within slots) (hw : l.recordWrite slot = .ok l') : l'.Within slots := by
  obtain ⟨cut, hcut, hw⟩ := ok_of_bind hw
  obtain ⟨free, hfree, hw⟩ := ok_of_bind hw
  obtain ⟨hwithin, hslot⟩ := h.cutBefore hcut
  exact (hwithin.cutAfter hfree).append hslot hw

/-! ### Links that lead to slots can be cut -/

theorem look_eq (h : slot < links.size) : look links slot = .ok (links[slot]?).join := by
  simp [look, Array.getElem?_eq_getElem h]

theorem link_eq (h : slot < links.size) : link links slot target = .ok (links.setIfInBounds slot target) :=
  if_pos h

theorem inRange_join (hall : ∀ x ∈ links, inRange slots x = true) (slot : Nat) :
    inRange slots (links[slot]?).join = true := by
  cases hlink : links[slot]? with
  | none => rfl
  | some target => exact hall target (Array.mem_of_getElem? hlink)

/-- The same links, read the other way round. -/
def turned (l : Links) : Links := ⟨l.prev, l.next, l.last⟩

theorem cutAfter_eq (l : Links) (slot : Nat) : l.cutAfter slot = (l.turned.cutBefore slot).map turned := by
  unfold cutAfter cutBefore turned
  rcases look l.next slot with _ | _ | after
  · rfl
  · rfl
  · simp only [bind, Except.bind]
    rcases link l.next slot none with _ | next
    · rfl
    · rcases link l.prev after none with _ | prev <;> rfl

theorem Within.turned (h : l.Within slots) : l.turned.Within slots :=
  ⟨h.prev_size, h.next_size, h.prev, h.next, h.last⟩

theorem Within.cutBefore_ok (h : l.Within slots) (hslot : slot < slots) : ∃ l', l.cutBefore slot = .ok l' := by
  have hprev : slot < l.prev.size := h.prev_size.symm ▸ hslot
  have hrange := inRange_join h.prev slot
  simp only [Links.cutBefore, look_eq hprev, bind, Except.bind]
  cases hbefore : (l.prev[slot]?).join with
  | none => exact ⟨l, rfl⟩
  | some before =>
    rw [hbefore] at hrange
    have hnext : before < l.next.size := h.next_size.symm ▸ of_decide_eq_true hrange
    simp only [link_eq hprev, link_eq hnext]
    exact ⟨_, rfl⟩

theorem Within.cutAfter_ok (h : l.Within slots) (hslot : slot < slots) : ∃ l', l.cutAfter slot = .ok l' := by
  obtain ⟨l', hcut⟩ := h.turned.cutBefore_ok hslot
  exact ⟨l'.turned, by rw [cutAfter_eq, hcut]; rfl⟩

theorem Within.append_ok (h : l.Within slots) (hslot : slot < slots) : ∃ l', l.append slot = .ok l' := by
  unfold Links.append
  split
  · exact ⟨_, rfl⟩
  · next last hlast =>
    have hrange := h.last
    rw [hlast] at hrange
    have hlt : last < l.next.size := h.next_size.symm ▸ of_decide_eq_true hrange
    split
    · exact ⟨_, rfl⟩
    · simp only [link_eq hlt, link_eq (h.prev_size.symm ▸ hslot), bind, Except.bind]
      exact ⟨_, rfl⟩

/-- **Every slot can be written.** -/
theorem Within.recordWrite_ok (h : l.Within slots) (hslot : slot < slots) :
    ∃ l', l.recordWrite slot = .ok l' := by
  obtain ⟨cut, hcut⟩ := h.cutBefore_ok hslot
  have hwithin := (h.cutBefore hcut).1
  obtain ⟨free, hfree⟩ := hwithin.cutAfter_ok hslot
  obtain ⟨l', happend⟩ := (hwithin.cutAfter hfree).append_ok hslot
  exact ⟨l', by simp only [Links.recordWrite, hcut, hfree, happend, bind, Except.bind]⟩

end Links

/-- The record is of a memory with that many slots of that width. -/
structure MemoryRecord.Suits (slots width : Nat) (r : MemoryRecord) : Prop where
  slotCount : r.slots = slots
  rowWidth : r.width = width
  contents : r.contents.size = wrap (slots * width)
  usage : r.usage.size = slots
  importance : r.importance.size = slots
  occupied : r.occupied.size = slots
  links : r.links.Within slots

namespace Memory

variable {c : Config.Memory} {m m' m₀ : Memory}

/-- The memory is of that configuration. All slots have their width, but for free ones without a
buffer. -/
structure Fits (c : Config.Memory) (m : Memory) : Prop where
  config : m.config = c
  size : m.slots.size = c.slots
  links : m.links.Within c.slots
  contents : ∀ t ∈ m.slots, hasBuffer c.slots c.width = true ∨ t.occupied = true → t.content.size = c.width

/-- The memory of a configuration before the first write. -/
def empty (c : Config.Memory) : Memory where
  config := c
  slots := Array.replicate c.slots (blank c.slots c.width)
  links := .ofSize c.slots

theorem fits_empty (c : Config.Memory) : (empty c).Fits c where
  config := rfl
  size := Array.size_replicate
  links := Links.within_ofSize c.slots
  contents := by
    intro t ht hfull
    rw [(Array.mem_replicate.mp ht).2] at hfull ⊢
    rcases hfull with hbuffer | hoccupied
    · simp [blank, hbuffer, Vec.zeros]
    · cases hoccupied

theorem eq_empty_of_ofConfig (h : ofConfig c = .ok m) : m = empty c := by
  unfold ofConfig at h
  obtain ⟨_, -, h⟩ := ok_of_bind h
  obtain ⟨_, -, h⟩ := ok_of_bind h
  dsimp only at h
  split at h
  · cases h
  · obtain ⟨links, hlinks, h⟩ := ok_of_bind h
    obtain ⟨_, -, hlinks⟩ := ok_of_bind hlinks
    cases hlinks
    cases h
    rfl

theorem Fits.clear (h : m.Fits c) : m.clear = empty c := by
  simp only [Memory.clear, capacity, width, h.config, h.size, h.links.clear, empty]

theorem Fits.write (h : m.Fits c) {value : Vec} {strength : Float32} {stored : Option Stored}
    (hw : m.write value strength = .ok (stored, m')) : m'.Fits c := by
  unfold Memory.write at hw
  obtain ⟨_, hsize, hw⟩ := ok_of_bind hw
  split at hw
  · cases hw
    exact h
  · next slot _ =>
    dsimp only at hw
    split at hw
    · cases hw
    obtain ⟨links, hlinks, hw⟩ := ok_of_bind hw
    cases hw
    refine ⟨h.config, ?_, h.links.recordWrite hlinks, fun t ht hfull => ?_⟩
    · simp only [Array.size_mapIdx, h.size]
    · obtain ⟨i, hi, rfl⟩ := Array.mem_mapIdx.mp ht
      split at hfull
      · next hslot =>
        have hvalue := eq_of_expectSize hsize
        rw [width, h.config] at hvalue
        simp only [hslot, if_true, Array.size_map, ← hvalue]
      · next hslot =>
        simp only [hslot, if_false]
        exact h.contents m.slots[i] (Array.getElem_mem hi) hfull

theorem leastBy_lt {less : Trace → Trace → Bool} {slots : Array Trace} {r : Nat × Trace}
    (h : leastBy less slots = some r) : r.1 < slots.size := by
  have hne : slots.toList.zipIdx ≠ [] := by
    intro hnil
    rw [leastBy, hnil] at h
    cases h
  have hpick : ∃ i, (leastBy less slots).map Prod.fst = some i ∧ i < slots.size := by
    refine Layout.foldl_pick (fun best e => ?_) (fun e he => ?_) (fun p hp => ?_) (.inl hne)
    · cases best with
      | none => exact .inl rfl
      | some p =>
        dsimp only
        split
        · exact .inl rfl
        · exact .inr ⟨p, rfl, rfl⟩
    · exact List.snd_lt_of_mem_zipIdx he
    · cases hp
  obtain ⟨i, hi, hlt⟩ := hpick
  rw [h] at hi
  cases hi
  exact hlt

theorem target?_lt {slot : Nat} (h : m.target? = some slot) : slot < m.slots.size := by
  unfold target? at h
  split at h
  · next hfree =>
    cases h
    exact (Array.findIdx?_eq_some_iff_findIdx_eq.mp hfree).1
  · split at h
    · cases h
    · next hleast =>
      split at h
      · cases h
        exact leastBy_lt hleast
      · obtain ⟨r, hr, rfl⟩ := Option.map_eq_some_iff.mp h
        exact leastBy_lt hr

/-- **A memory with a buffer can always be written**, with any value of the right length. -/
theorem Fits.write_ok (h : m.Fits c) (hb : m.isBacked = true) {value : Vec} (hv : value.size = c.width)
    (strength : Float32) : ∃ stored m', m.write value strength = .ok (stored, m') := by
  have hwidth : m.width = value.size := (congrArg Config.Memory.width h.config).trans hv.symm
  simp only [Memory.write, hwidth, expectSize_ok, bind, Except.bind]
  cases htarget : m.target? with
  | none => exact ⟨none, m, rfl⟩
  | some slot =>
    obtain ⟨links, hlinks⟩ := h.links.recordWrite_ok (h.size ▸ target?_lt htarget)
    simp only [hlinks, hb, Bool.not_true, Bool.false_eq_true, if_false]
    exact ⟨_, _, rfl⟩

/-! ### Reading -/

theorem mem_climb {m e : Nat × Float32} {place : Nat} {l : List (Nat × Float32)}
    (he : e ∈ Ranking.climb m place l) : e = m ∨ e ∈ l := by
  induction place generalizing l with
  | zero => exact (List.mem_or_eq_of_mem_set he).symm
  | succ place ih =>
    unfold Ranking.climb at he
    split at he
    · next x hx =>
      split at he
      · refine (ih he).imp_right fun he => ?_
        rcases List.mem_or_eq_of_mem_set he with he | rfl
        · exact he
        · exact List.mem_of_getElem? hx
      · exact (List.mem_or_eq_of_mem_set he).symm
    · exact .inr he

theorem mem_offer {r : Ranking} {slot : Nat} {score : Float32} {e : Nat × Float32}
    (he : e ∈ (r.offer slot score).entries) : e = (slot, score) ∨ e ∈ r.entries := by
  unfold Ranking.offer at he
  split at he
  · exact .inr he
  split at he
  · exact .inr he
  · rcases mem_climb he with he | he
    · exact .inl he
    · split at he
      · exact .inr he
      · exact (List.mem_append.mp he).symm.imp_left List.mem_singleton.mp

/-- A ranking holds none but the matches that it was offered. -/
theorem mem_foldl_offer {found : List (Nat × Float32)} {r : Ranking} {e : Nat × Float32}
    (he : e ∈ (found.foldl (fun r m => r.offer m.1 m.2) r).entries) : e ∈ r.entries ∨ e ∈ found := by
  induction found generalizing r with
  | nil => exact .inl he
  | cons m rest ih =>
    rcases ih he with he | he
    · rcases mem_offer he with rfl | he
      · exact .inr List.mem_cons_self
      · exact .inl he
    · exact .inr (List.mem_cons_of_mem m he)

theorem occupied_of_mem_scores {b : Backend} {query : Vec} {e : Nat × Float32}
    (he : e ∈ m.scores b query) : ∃ t, m.slots[e.1]? = some t ∧ t.occupied = true := by
  obtain ⟨⟨t, i⟩, hmem, hkeep⟩ := List.mem_filterMap.mp he
  dsimp only at hkeep
  split at hkeep
  · next hoccupied =>
    cases hkeep
    refine ⟨t, ?_, hoccupied⟩
    rw [← Array.getElem?_toList]
    exact List.mem_zipIdx_iff_getElem?.mp hmem
  · cases hkeep

/-- Only what is occupied is found. -/
theorem occupied_of_ranked (m : Memory) (b : Backend) (query : Vec) (k : Nat) :
    ∀ e ∈ (Ranking.ofMatches k (m.scores b query)).entries, ∃ t, m.slots[e.1]? = some t ∧ t.occupied = true :=
  fun _ he => occupied_of_mem_scores ((mem_foldl_offer he).resolve_left (by simp [Ranking.ofLimit]))

theorem length_axpy (b : Backend) (a : Float32) (xs ys : Vec) : (Kernel.axpy b a xs ys).size = ys.size := by
  have hplain (xs ys : List Float32) : (Kernel.plainAxpy a xs ys).length = ys.length := by
    fun_induction Kernel.plainAxpy a xs ys with
    | case1 x xs y ys ih => simp [ih]
    | case2 => rfl
  cases b with
  | scalar => exact hplain _ _
  | lanes =>
    rw [Kernel.axpy_lanes]
    exact hplain _ _

theorem size_blend (m : Memory) (b : Backend) (found : List (Nat × Float32)) :
    (m.blend b found).size = m.width := by
  have hfold (l : List ((Nat × Float32) × Float32)) (out : Vec) :
      (l.foldl (fun out e => Kernel.axpy b e.2 (((m.slots[e.1.1]?).map Trace.content).getD #[]) out) out).size =
        out.size := by
    induction l generalizing out with
    | nil => rfl
    | cons e rest ih => rw [List.foldl_cons, ih, length_axpy]
  exact (hfold _ _).trans Array.size_replicate

theorem Fits.size_read (h : m.Fits c) {b : Backend} {query : Vec} {size : Nat} {found : Recall}
    (hr : m.read b query size = .ok found) : found.content.size = c.width := by
  have hw : m.width = c.width := congrArg Config.Memory.width h.config
  unfold Memory.read at hr
  obtain ⟨_, -, hr⟩ := ok_of_bind hr
  obtain ⟨_, -, hr⟩ := ok_of_bind hr
  have hfound := occupied_of_ranked m b query m.config.readHeads
  dsimp only at hr
  generalize (Ranking.ofMatches m.config.readHeads (m.scores b query)).entries = entries at hr hfound
  cases entries with
  | nil =>
    cases hr
    exact Array.size_replicate.trans hw
  | cons e rest =>
    dsimp only at hr
    split at hr
    · obtain ⟨content, hcontent, hr⟩ := ok_of_bind hr
      cases hr
      obtain ⟨t, ht, hoccupied⟩ := hfound e List.mem_cons_self
      unfold content? at hcontent
      split at hcontent
      · cases hcontent
      · rw [ht] at hcontent
        cases hcontent
        exact h.contents t (Array.mem_of_getElem? ht) (.inr hoccupied)
    · cases hr
      exact (size_blend m b _).trans hw

theorem checkContents_ok (h : m.isBacked = true ∨ m.isEmpty = true) : m.checkContents = .ok () :=
  if_pos (Bool.or_eq_true .. |>.mpr h)

/-- **A memory with a buffer can always be read**, and what is found is in one of its slots. -/
theorem read_ok (hb : m.isBacked = true) (b : Backend) {query : Vec} (hq : query.size = m.width) :
    ∃ found, m.read b query m.width = .ok found ∧ ∀ slot ∈ found.slot, slot < m.capacity := by
  have hfound := occupied_of_ranked m b query m.config.readHeads
  simp only [Memory.read, checkRead, hq, expectSize_ok, checkContents_ok (.inl hb), bind, Except.bind]
  generalize (Ranking.ofMatches m.config.readHeads (m.scores b query)).entries = entries at hfound ⊢
  cases entries with
  | nil => exact ⟨_, rfl, by simp [nothing]⟩
  | cons e rest =>
    obtain ⟨t, ht, -⟩ := hfound e List.mem_cons_self
    have hslot : ∀ slot ∈ some e.1, slot < m.capacity := by
      rintro _ ⟨⟩
      exact (Array.getElem?_eq_some_iff.mp ht).1
    have hcontent : m.content? e.1 = .ok t.content := by simp [content?, hb, ht]
    cases rest with
    | nil =>
      simp only [List.isEmpty_nil, if_true, hcontent]
      exact ⟨_, rfl, hslot⟩
    | cons => exact ⟨_, rfl, hslot⟩

theorem Fits.read_ok (h : m.Fits c) (hb : m.isBacked = true) (b : Backend) {query : Vec}
    (hq : query.size = c.width) : ∃ found, m.read b query query.size = .ok found := by
  have hwidth : query.size = m.width := hq.trans (congrArg Config.Memory.width h.config).symm
  rw [hwidth]
  obtain ⟨found, hread, -⟩ := Memory.read_ok hb b hwidth
  exact ⟨found, hread⟩

/-! ### Saving and putting back -/

/-- The memory with a record in place of what it held. -/
def put (m : Memory) (r : MemoryRecord) : Memory where
  config := m.config
  slots := (Array.range m.capacity).map fun i => {
    content := r.contents.extract (i * m.width) ((i + 1) * m.width)
    usage := r.usage.getD i 0
    importance := r.importance.getD i 0
    occupied := r.occupied.getD i false }
  links := r.links
  writes := r.writes

theorem capacity_put (m : Memory) (r : MemoryRecord) : (m.put r).capacity = m.capacity := by
  simp only [put, capacity, Array.size_map, Array.size_range]

theorem restore_of_suits {r : MemoryRecord} (h : r.Suits m.capacity m.width) : m.restore r = .ok (m.put r) := by
  unfold Memory.restore
  rw [h.slotCount, h.rowWidth, h.contents, h.usage, h.importance, h.occupied, Links.validate_iff.mpr h.links]
  simp only [expectSize_ok]
  rfl

/-- A record is put back as a whole, and only if it suits. -/
theorem eq_put_of_restore {r : MemoryRecord} (h : m₀.restore r = .ok m) :
    r.Suits m₀.capacity m₀.width ∧ m = m₀.put r := by
  unfold Memory.restore at h
  obtain ⟨_, hslots, h⟩ := ok_of_bind h
  obtain ⟨_, hwidth, h⟩ := ok_of_bind h
  obtain ⟨_, hcontents, h⟩ := ok_of_bind h
  obtain ⟨_, husage, h⟩ := ok_of_bind h
  obtain ⟨_, himportance, h⟩ := ok_of_bind h
  obtain ⟨_, hoccupied, h⟩ := ok_of_bind h
  obtain ⟨_, hlinks, h⟩ := ok_of_bind h
  cases h
  exact ⟨⟨(eq_of_expectSize hslots).symm, (eq_of_expectSize hwidth).symm, (eq_of_expectSize hcontents).symm,
    (eq_of_expectSize husage).symm, (eq_of_expectSize himportance).symm, (eq_of_expectSize hoccupied).symm,
    Links.validate_iff.mp hlinks⟩, rfl⟩

theorem restore_iff {r : MemoryRecord} : (∃ m', m.restore r = .ok m') ↔ r.Suits m.capacity m.width := by
  constructor
  · rintro ⟨m', h⟩
    exact (eq_put_of_restore h).1
  · exact fun h => ⟨_, restore_of_suits h⟩

theorem shape_of_restore {r : MemoryRecord} (h : m₀.restore r = .ok m) :
    r.slots = m₀.capacity ∧ r.width = m₀.width ∧ m.config = m₀.config := by
  obtain ⟨hsuits, rfl⟩ := eq_put_of_restore h
  exact ⟨hsuits.slotCount, hsuits.rowWidth, rfl⟩

theorem mul_width_lt {slots width : Nat} (h : hasBuffer slots width = true) :
    slots * width < UInt64.size := by
  simp only [hasBuffer, Bool.and_eq_true, decide_eq_true_eq] at h
  exact Nat.lt_of_le_of_lt (Nat.mul_le_mul_left slots h.1) h.2

/-- A record that has a buffer for its contents can only be put back into a memory of its kind. -/
theorem Fits.restore (h : m₀.Fits c) {r : MemoryRecord}
    (hback : r.slots = 0 ∨ hasBuffer r.slots r.width = true) (hr : m₀.restore r = .ok m) :
    m.Fits c ∧ r.slots = c.slots ∧ r.width = c.width := by
  have hcapacity : m₀.capacity = c.slots := h.size
  have hw : m₀.width = c.width := by rw [width, h.config]
  obtain ⟨hsuits, rfl⟩ := eq_put_of_restore hr
  rw [hcapacity, hw] at hsuits
  refine ⟨⟨h.config, (m₀.capacity_put r).trans hcapacity, hsuits.links, fun t ht _ => ?_⟩, hsuits.slotCount,
    hsuits.rowWidth⟩
  obtain ⟨i, hi, rfl⟩ := Array.mem_map.mp ht
  have hi : i < c.slots := hcapacity ▸ Array.mem_range.mp hi
  have hbuffer : hasBuffer c.slots c.width = true := by
    rw [hsuits.slotCount, hsuits.rowWidth] at hback
    exact hback.resolve_left (by omega)
  have hsize : r.contents.size = c.slots * c.width :=
    hsuits.contents.trans (Nat.mod_eq_of_lt (mul_width_lt hbuffer))
  have hend : (i + 1) * c.width ≤ r.contents.size := hsize ▸ Nat.mul_le_mul_right c.width hi
  rw [Nat.succ_mul] at hend
  simp only [hw, Array.size_extract, Nat.succ_mul]
  omega

theorem isBacked_iff (h : m.Fits c) :
    m.isBacked = true ↔ c.slots = 0 ∨ hasBuffer c.slots c.width = true := by
  simp only [isBacked, capacity, width, h.config, h.size, Array.isEmpty, Bool.or_eq_true, decide_eq_true_eq]

/-- Only a memory with a buffer for its contents is saved. -/
theorem of_record {r : MemoryRecord} (h : m.record = .ok r) : m.isBacked = true ∧ r = m.toRecord := by
  unfold Memory.record at h
  split at h
  · next hb =>
    cases h
    exact ⟨hb, rfl⟩
  · cases h

theorem Fits.backed (h : m.Fits c) {r : MemoryRecord} (hr : m.record = .ok r) :
    c.slots = 0 ∨ hasBuffer c.slots c.width = true :=
  (isBacked_iff h).mp (of_record hr).1

theorem Fits.backed_of_record (h : m.Fits c) {r : MemoryRecord} (hr : m.record = .ok r) :
    r.slots = 0 ∨ hasBuffer r.slots r.width = true := by
  have hback := h.backed hr
  obtain ⟨-, rfl⟩ := of_record hr
  have hslots : m.toRecord.slots = c.slots := h.size
  have hwidth : m.toRecord.width = c.width := congrArg Config.Memory.width h.config
  rw [hslots, hwidth]
  exact hback

theorem Fits.record (h : m.Fits c) (hb : hasBuffer c.slots c.width = true) :
    m.record = .ok m.toRecord := by
  rw [Memory.record, if_pos ((isBacked_iff h).mpr (.inr hb))]

/-- A saved memory can be put back in place of any other of its configuration. -/
theorem Fits.restore_toRecord (h : m.Fits c) (hb : hasBuffer c.slots c.width = true) (h₀ : m₀.Fits c) :
    m₀.restore m.toRecord = .ok m := by
  have hcapacity₀ : m₀.capacity = c.slots := h₀.size
  have hcapacity : m.capacity = c.slots := h.size
  have hw₀ : m₀.width = c.width := by rw [width, h₀.config]
  have hw : m.width = c.width := by rw [width, h.config]
  have hlayout : m.toRecord.contents.toList = m.slots.toList.flatMap fun t => t.content.toList := by
    simp only [toRecord]
    rw [← Array.foldl_toList, Layout.toList_foldl_append Trace.content]
    simp
  have hblocks : ∀ t ∈ m.slots.toList, t.content.size = c.width :=
    fun t ht => h.contents t (Array.mem_toList_iff.mp ht) (.inl hb)
  have hsize : wrap (c.slots * c.width) = m.toRecord.contents.size := by
    rw [← Array.length_toList, hlayout, Layout.length_flatMap_of_blocks hblocks, Array.length_toList, h.size]
    exact Nat.mod_eq_of_lt (mul_width_lt hb)
  have hslots : ((Array.range c.slots).map fun i => ({
      content := m.toRecord.contents.extract (i * c.width) ((i + 1) * c.width)
      usage := m.toRecord.usage.getD i 0
      importance := m.toRecord.importance.getD i 0
      occupied := m.toRecord.occupied.getD i false } : Trace)) = m.slots := by
    refine Array.ext (by simp [h.size]) fun i hi hi' => ?_
    have hslot : m.slots.toList[i]? = some m.slots[i] := by
      rw [Array.getElem?_toList, Array.getElem?_eq_getElem hi']
    simp only [Array.getElem_map, Array.getElem_range]
    rw [Layout.extract_blocks hblocks hlayout hslot]
    simp [toRecord, usage, importance, Array.getD_eq_getD_getElem?, hi']
  have hsuits : m.toRecord.Suits m₀.capacity m₀.width := by
    rw [hcapacity₀, hw₀]
    exact {
      slotCount := hcapacity
      rowWidth := hw
      contents := hsize.symm
      usage := by simp [toRecord, usage, h.size]
      importance := by simp [toRecord, importance, h.size]
      occupied := by simp [toRecord, h.size]
      links := h.links }
  rw [restore_of_suits hsuits, put, hcapacity₀, hw₀, hslots, h₀.config, ← h.config]
  rfl

end Memory

namespace Board

variable {c : Config.Memory} {threshold : Float32} {b b' : Board}

/-- The board is of that configuration. -/
structure Fits (c : Config.Memory) (threshold : Float32) (b : Board) : Prop where
  memory : b.memory.Fits c
  threshold : b.threshold = threshold

theorem fits_of_ofConfig (h : ofConfig c threshold = .ok b) : b.Fits c threshold := by
  obtain ⟨memory, hm, h⟩ := ok_of_bind h
  cases h
  exact ⟨Memory.eq_empty_of_ofConfig hm ▸ Memory.fits_empty c, rfl⟩

theorem Fits.publish (h : b.Fits c threshold) {value : Vec} {importance : Float32} {told : Bool}
    (hp : b.publish value importance = .ok (told, b')) : b'.Fits c threshold := by
  unfold Board.publish at hp
  split at hp
  · cases hp
    exact ⟨h.memory, h.threshold⟩
  · obtain ⟨⟨stored, memory⟩, hw, hp⟩ := ok_of_bind hp
    have hm := h.memory.write hw
    cases stored with
    | none =>
      cases hp
      exact ⟨hm, h.threshold⟩
    | some place =>
      cases hp
      exact ⟨hm, h.threshold⟩

theorem Fits.clear (h : b.Fits c threshold) : b.clear.Fits c threshold where
  memory := by
    rw [Board.clear, h.memory.clear]
    exact Memory.fits_empty c
  threshold := h.threshold

theorem Fits.restore (h : b.Fits c threshold) {r : MemoryRecord}
    (hback : r.slots = 0 ∨ Memory.hasBuffer r.slots r.width = true) (hr : b.restore r = .ok b') :
    b'.Fits c threshold := by
  obtain ⟨memory, hm, hr⟩ := ok_of_bind hr
  cases hr
  exact ⟨(h.memory.restore hback hm).1, h.threshold⟩

end Board

end NpcMind
