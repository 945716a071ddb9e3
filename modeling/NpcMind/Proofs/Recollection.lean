import NpcMind.Proofs.Rankings
import NpcMind.Proofs.WriteOrder
import NpcMind.Proofs.Writes

/-!
# Reads and linked reads

A read goes to the first of the slots that match a query best, and a linked read goes on from there to the slot
written just after or before. Both rank the matches on their own, and they come to the same best match, as it does not
depend on how many matches are kept.

Whatever was written, forgotten and put back, the occupied slots are those written since the memory was last empty,
and links join none but these. So free slots have no part in what is found.
-/

namespace NpcMind

open Outcome

/-- The last write of the second slot comes right after that of the first, or right before it. -/
def Links.Neighbours (ws : List Nat) : Direction → Nat → Nat → Prop
  | .forward, a, b => Consecutive ws a b
  | .backward, a, b => Consecutive ws b a

theorem Links.Linked.follow_iff {n a b : Nat} {l : Links} {ws : List Nat} (h : l.Linked n (Consecutive ws))
    (d : Direction) : l.follow a d = some b ↔ Neighbours ws d a b := by
  cases d with
  | forward => exact h.forward a b
  | backward => exact h.backward b a

theorem Links.Neighbours.mem {a b : Nat} {ws : List Nat} {d : Direction} (h : Neighbours ws d a b) : b ∈ ws := by
  cases d with
  | forward =>
    obtain ⟨i, -, hb⟩ := h
    exact List.mem_of_getElem? hb.1
  | backward =>
    obtain ⟨i, hb, -⟩ := h
    exact List.mem_of_getElem? hb.1

namespace Memory

variable {c : Config.Memory} {m m' m₀ : Memory} {ws : List Nat} {b : Backend} {query : Vec}

/-! ### What was written since the memory was last empty -/

/-- Memories that came about by writing, forgetting and putting back what was saved of such a memory, with the slots
written since they were last empty. -/
inductive Written : Memory → List Nat → Prop
  | new {c : Config.Memory} {m : Memory} (h : ofConfig c = .ok m) : Written m []
  | write {m m' : Memory} {ws : List Nat} {value : Vec} {strength : Float32} {stored : Option Stored}
      (h : Written m ws) (hw : m.write value strength = .ok (stored, m')) :
      Written m' (ws ++ stored.toList.map Stored.slot)
  | clear {m : Memory} {ws : List Nat} (h : Written m ws) : Written m.clear []
  | restore {m m₀ m' : Memory} {ws ws₀ : List Nat} {r : MemoryRecord} (h : Written m ws) (h₀ : Written m₀ ws₀)
      (hr : m.record = .ok r) (hm : m₀.restore r = .ok m') : Written m' ws

/-- The memory holds what was written into these slots: they are occupied, and linked in that order. -/
structure Holds (ws : List Nat) (m : Memory) : Prop where
  fits : m.Fits m.config
  heads : m.config.readHeads ≤ Config.maxReadHeads
  within : ∀ w ∈ ws, w < m.config.slots
  occupied : ∀ (i : Nat) (t : Trace), m.slots[i]? = some t → (t.occupied = true ↔ i ∈ ws)
  linked : m.links.Linked m.config.slots (Links.Consecutive ws)
  last : m.links.last = ws.getLast?
  backed : ws ≠ [] → m.isBacked = true

theorem holds_empty (hheads : c.readHeads ≤ Config.maxReadHeads) : (empty c).Holds [] where
  fits := fits_empty c
  heads := hheads
  within := nofun
  occupied := by
    intro i t ht
    rw [(Array.mem_replicate.mp (Array.mem_of_getElem? ht)).2]
    simp [blank]
  linked := by
    refine (Links.Linked.ofSize c.slots).congr fun a b => ⟨False.elim, ?_⟩
    rintro ⟨i, ha, -⟩
    exact absurd ha.lt (Nat.not_lt_zero i)
  last := rfl
  backed := fun h => absurd rfl h

theorem holds_of_ofConfig (h : ofConfig c = .ok m) : m.Holds [] := by
  have hheads : c.readHeads ≤ Config.maxReadHeads := by
    unfold ofConfig at h
    obtain ⟨_, -, h⟩ := ok_of_bind h
    obtain ⟨_, -, h⟩ := ok_of_bind h
    dsimp only at h
    split at h
    · cases h
    · next hle => exact Nat.not_lt.mp hle
  rw [eq_empty_of_ofConfig h]
  exact holds_empty hheads

theorem eq_of_write_none {value : Vec} {strength : Float32} (h : m.write value strength = .ok (none, m')) :
    m' = m := by
  unfold write at h
  obtain ⟨_, -, h⟩ := ok_of_bind h
  split at h
  · cases h
    rfl
  · dsimp only at h
    split at h
    · cases h
    · obtain ⟨links, -, h⟩ := ok_of_bind h
      cases h

theorem Holds.hold {slot : Nat} {value : Vec} {strength : Float32} {links : Links} (h : m.Holds ws)
    (hb : m.isBacked = true) (hslot : slot < m.slots.size) (hlinks : m.links.recordWrite slot = .ok links)
    (hfits : (m.hold slot value strength links).Fits m.config) :
    (m.hold slot value strength links).Holds (ws ++ [slot]) := by
  have hslot' : slot < m.config.slots := h.fits.size ▸ hslot
  obtain ⟨links', hlinks', hlast, hlinked⟩ := h.linked.recordWrite h.last h.within hslot'
  obtain rfl : links = links' := Except.ok.inj (hlinks.symm.trans hlinks')
  refine ⟨hfits, h.heads, fun w hmem => ?_, fun i t ht => ?_, hlinked, ?_, fun _ => ?_⟩
  · rcases List.mem_append.mp hmem with hold | hnew
    · exact h.within w hold
    · rw [List.mem_singleton.mp hnew]
      exact hslot'
  · by_cases hi : i = slot
    · rw [hi, slots_hold_here value strength links hslot] at ht
      cases ht
      simp [hi]
    · rw [slots_hold_other hi] at ht
      obtain ⟨u, hu, rfl⟩ := Option.map_eq_some_iff.mp ht
      simp [hi, h.occupied i u hu]
  · rw [List.getLast?_concat]
    exact hlast
  · rw [isBacked_iff hfits, ← isBacked_iff h.fits]
    exact hb

/-- **One write** adds its slot. -/
theorem Holds.write {value : Vec} {strength : Float32} {stored : Option Stored} (h : m.Holds ws)
    (hw : m.write value strength = .ok (stored, m')) : m'.Holds (ws ++ stored.toList.map Stored.slot) := by
  cases stored with
  | none =>
    rw [eq_of_write_none hw, Option.toList_none, List.map_nil, List.append_nil]
    exact h
  | some stored =>
    have hfits := h.fits.write hw
    obtain ⟨t, links, -, hb, hchooses, -, hlinks, rfl⟩ := of_write hw
    exact h.hold hb (Array.getElem?_eq_some_iff.mp hchooses.here).1 hlinks hfits

theorem of_restore {r : MemoryRecord} (h : m₀.restore r = .ok m) : m.links = r.links ∧
    ∀ (i : Nat) (t : Trace), m.slots[i]? = some t → t.occupied = r.occupied.getD i false := by
  obtain ⟨-, rfl⟩ := eq_put_of_restore h
  refine ⟨rfl, fun i t ht => ?_⟩
  simp only [put, Array.getElem?_map] at ht
  obtain ⟨j, hj, rfl⟩ := Option.map_eq_some_iff.mp ht
  obtain ⟨hlt, rfl⟩ := Array.getElem?_eq_some_iff.mp hj
  rw [Array.getElem_range]

/-- **What is put back** holds what was saved, whatever was there before. -/
theorem Holds.restore {ws₀ : List Nat} {r : MemoryRecord} (h : m.Holds ws) (h₀ : m₀.Holds ws₀)
    (hr : m.record = .ok r) (hm : m₀.restore r = .ok m') : m'.Holds ws := by
  have hconfig : m'.config = m₀.config := (shape_of_restore hm).2.2
  have hback := h.fits.backed_of_record hr
  obtain ⟨hfits, hsize, hwidth⟩ := h₀.fits.restore hback hm
  rw [hsize, hwidth] at hback
  obtain ⟨hlinks, hoccupied⟩ := of_restore hm
  obtain ⟨-, rfl⟩ := of_record hr
  have hslots : m.config.slots = m₀.config.slots := h.fits.size.symm.trans hsize
  -- The configuration is the one of the memory that takes the record, and only its shape has to be the same.
  rw [← hconfig] at hfits hslots
  refine ⟨hfits, ?_, fun w hw => hslots ▸ h.within w hw, fun i t ht => ?_, ?_, ?_, fun _ => ?_⟩
  · rw [hconfig]
    exact h₀.heads
  · have hi : i < m.slots.size := by
      rw [h.fits.size, hslots, ← hfits.size]
      exact (Array.getElem?_eq_some_iff.mp ht).1
    rw [hoccupied i t ht, ← h.occupied i m.slots[i] (Array.getElem?_eq_getElem hi)]
    simp [toRecord, hi]
  · rw [← hslots, hlinks]
    exact h.linked
  · rw [hlinks]
    exact h.last
  · rw [isBacked_iff hfits, hconfig]
    exact hback

/-- **Every memory holds what was written** since it was last empty. -/
theorem Written.holds (h : Written m ws) : m.Holds ws := by
  induction h with
  | new h => exact holds_of_ofConfig h
  | write _ hw ih => exact ih.write hw
  | clear _ ih =>
    rw [ih.fits.clear]
    exact holds_empty ih.heads
  | restore _ _ hr hm ih ih₀ => exact ih.restore ih₀ hr hm

/-! ### The best match -/

/-- What a slot scores, if it is occupied and its score is a number. -/
def score? (m : Memory) (b : Backend) (query : Vec) (t : Trace) : Option Float32 :=
  if t.occupied && !(m.config.metric.score b query t.content).isNaN then
    some (m.config.metric.score b query t.content)
  else none

/-- The first of the slots that have the highest score. -/
structure BestMatch (m : Memory) (b : Backend) (query : Vec) (slot : Nat) (score : Float32) : Prop where
  here : ∃ t, m.slots[slot]? = some t ∧ m.score? b query t = some score
  best : ∀ (i : Nat) (t : Trace) (s : Float32), m.slots[i]? = some t → m.score? b query t = some s → s ≤ score
  first : ∀ (i : Nat) (t : Trace) (s : Float32), i < slot → m.slots[i]? = some t →
    m.score? b query t = some s → s < score

/-- The slots that have a score, in their order. -/
def candidates (m : Memory) (b : Backend) (query : Vec) : List (Nat × Float32) :=
  m.slots.toList.zipIdx.filterMap fun e => (m.score? b query e.1).map (e.2, ·)

theorem isOccupied_of_score? {t : Trace} {s : Float32} (h : m.score? b query t = some s) :
    t.occupied = true ∧ s.isNaN = false := by
  unfold score? at h
  split at h
  · next hscored =>
    cases h
    simpa using hscored
  · cases h

theorem eligible_scores (m : Memory) (b : Backend) (query : Vec) :
    Ranking.eligible (m.scores b query) = m.candidates b query := by
  unfold Ranking.eligible scores candidates
  rw [List.filter_filterMap]
  refine congrArg (List.filterMap · _) ?_
  funext e
  cases hoccupied : e.1.occupied with
  | false => simp [score?, hoccupied]
  | true =>
    simp only [score?, hoccupied, if_true, Bool.true_and, Option.filter_some]
    cases (m.config.metric.score b query e.1.content).isNaN <;> rfl

theorem mem_candidates {e : Nat × Float32} :
    e ∈ m.candidates b query ↔ ∃ t, m.slots[e.1]? = some t ∧ m.score? b query t = some e.2 := by
  simp only [candidates, List.mem_filterMap, Option.map_eq_some_iff]
  constructor
  · rintro ⟨⟨t, i⟩, hmem, s, hs, rfl⟩
    exact ⟨t, Array.getElem?_toList.symm.trans (List.mem_zipIdx_iff_getElem?.mp hmem), hs⟩
  · rintro ⟨t, ht, hs⟩
    exact ⟨(t, e.1), List.mem_zipIdx_iff_getElem?.mpr (Array.getElem?_toList.trans ht), e.2, hs, rfl⟩

theorem pairwise_candidates (m : Memory) (b : Backend) (query : Vec) :
    (m.candidates b query).Pairwise fun e f => e.1 < f.1 := by
  have hindices : (m.slots.toList.zipIdx).Pairwise fun e f => e.2 < f.2 := by
    rw [← List.pairwise_map, List.zipIdx_map_snd]
    exact List.pairwise_lt_range'
  refine List.pairwise_filterMap.mpr (hindices.imp fun {e f} hlt x hx y hy => ?_)
  obtain ⟨_, -, rfl⟩ := Option.map_eq_some_iff.mp hx
  obtain ⟨_, -, rfl⟩ := Option.map_eq_some_iff.mp hy
  exact hlt

theorem length_candidates (m : Memory) (b : Backend) (query : Vec) :
    (m.candidates b query).length = m.slots.countP fun t => (m.score? b query t).isSome := by
  have hfst : m.slots.toList.zipIdx.map Prod.fst = m.slots.toList := List.zipIdx_map_fst 0 _
  rw [candidates, List.length_filterMap_eq_countP, ← Array.countP_toList]
  conv_rhs => rw [← hfst, List.countP_map]
  simp [Function.comp_def]

/-- The best match of a query with its score. -/
def anchor? (m : Memory) (b : Backend) (query : Vec) : Option (Nat × Float32) :=
  (ranked Ranking.standing (m.candidates b query)).head?

/-- **A ranking of the matches starts with the best one**, however many it keeps. -/
theorem entries_scores (k : Nat) : (Ranking.ofMatches k (m.scores b query)).entries =
    (ranked Ranking.standing (m.candidates b query)).take (min k Config.maxReadHeads) := by
  rw [Ranking.entries_ofMatches, eligible_scores]
  rfl

theorem best?_scores : (Ranking.ofMatches 1 (m.scores b query)).best? = m.anchor? b query := by
  rw [Ranking.best?, entries_scores, List.head?_take, if_neg (by decide), anchor?]

theorem anchor?_eq_none (h : m.anchor? b query = none) : ∀ t ∈ m.slots, m.score? b query t = none := by
  intro t ht
  by_contra hsome
  obtain ⟨s, hs⟩ := Option.ne_none_iff_exists'.mp hsome
  obtain ⟨i, hi⟩ := Array.getElem?_of_mem ht
  have hmem : (i, s) ∈ ranked Ranking.standing (m.candidates b query) :=
    List.mem_mergeSort.mpr (mem_candidates.mpr ⟨t, hi, hs⟩)
  rw [List.head?_eq_none_iff.mp h] at hmem
  cases hmem

theorem bestMatch_of_anchor? {e : Nat × Float32} (h : m.anchor? b query = some e) :
    m.BestMatch b query e.1 e.2 := by
  obtain ⟨rest, hranked⟩ : ∃ rest, ranked Ranking.standing (m.candidates b query) = e :: rest :=
    ⟨_, List.eq_cons_of_mem_head? h⟩
  have hbefore : (ranked Ranking.standing (m.candidates b query)).Pairwise _ :=
    pairwise_ranked (pairwise_candidates m b query)
  rw [hranked] at hbefore
  have hmem {f : Nat × Float32} : f ∈ m.candidates b query ↔ f = e ∨ f ∈ rest := by
    rw [← List.mem_cons, ← hranked]
    exact List.mem_mergeSort.symm
  obtain ⟨u, hu, hbest⟩ := mem_candidates.mp (hmem.mpr (.inl rfl))
  have hnan := (isOccupied_of_score? hbest).2
  -- Any other match comes later in the ranking: it is worse, or as good and of a later slot.
  have hplace (i : Nat) (t : Trace) (s : Float32) (hi : m.slots[i]? = some t) (hs : m.score? b query t = some s) :
      (i, s) = e ∨ Ranking.standing (i, s) < Ranking.standing e ∨
        Ranking.standing e = Ranking.standing (i, s) ∧ e.1 < i := by
    refine (hmem.mp (mem_candidates.mpr ⟨t, hi, hs⟩)).imp_right fun hrest => ?_
    exact (List.pairwise_cons.mp hbefore).1 _ hrest
  refine ⟨⟨u, hu, hbest⟩, fun i t s hi hs => ?_, fun i t s hlt hi hs => ?_⟩
  · have hs' := (isOccupied_of_score? hs).2
    rcases hplace i t s hi hs with rfl | hless | ⟨htied, -⟩
    · exact Single.le_refl hs'
    · exact (Single.le_iff_height hs' hnan).mpr hless.le
    · exact (Single.le_iff_height hs' hnan).mpr htied.ge
  · have hs' := (isOccupied_of_score? hs).2
    rcases hplace i t s hi hs with rfl | hless | ⟨-, hafter⟩
    · exact absurd hlt (Nat.lt_irrefl i)
    · exact (Single.lt_iff_height hs' hnan).mpr hless
    · exact absurd hlt (Nat.lt_asymm hafter)

/-! ### Reading -/

theorem checkRead_ok (hq : query.size = m.width) : m.checkRead query m.width = .ok () := by
  simp only [checkRead, hq, expectSize_ok, bind, Except.bind]

theorem Holds.content?_ok {i : Nat} {t : Trace} (h : m.Holds ws) (ht : m.slots[i]? = some t)
    (ho : t.occupied = true) : m.content? i = .ok t.content := by
  have hbacked := h.backed (List.ne_nil_of_mem ((h.occupied i t ht).mp ho))
  simp [content?, hbacked, ht]

/-- Links lead to occupied slots. -/
theorem Holds.occupied_of_follow {a slot : Nat} {d : Direction} (h : m.Holds ws)
    (hfollow : m.links.follow a d = some slot) : ∃ t, m.slots[slot]? = some t ∧ t.occupied = true := by
  have hmem := ((h.linked.follow_iff d).mp hfollow).mem
  have hslot : slot < m.slots.size := h.fits.size ▸ h.within slot hmem
  have ht := Array.getElem?_eq_getElem hslot
  exact ⟨_, ht, (h.occupied slot _ ht).mpr hmem⟩

/-- Where all occupied slots can be looked into, the memory has a buffer or nothing in it. -/
theorem checkContents_of_content? (hcontents : ∀ (i : Nat) (t : Trace), m.slots[i]? = some t → t.occupied = true →
    m.content? i = .ok t.content) : m.checkContents = .ok () := by
  cases hb : m.isBacked with
  | true => exact checkContents_ok (.inl hb)
  | false =>
    have hempty : m.isEmpty = true := by
      simp only [isEmpty, Bool.not_eq_true', Array.any_eq_false]
      intro i hi hoccupied
      have hcontent := hcontents i _ (Array.getElem?_eq_getElem hi) hoccupied
      simp [content?, hb] at hcontent
    exact checkContents_ok (.inr hempty)

/-- **A read finds the best match**, and blends as many as it may, wherever it can look into the occupied slots. -/
theorem read_eq (hcontents : ∀ (i : Nat) (t : Trace), m.slots[i]? = some t → t.occupied = true →
      m.content? i = .ok t.content) (hheads : 1 ≤ m.config.readHeads) (hq : query.size = m.width) :
    (m.anchor? b query = none → m.read b query m.width = .ok m.nothing) ∧
    ∀ e, m.anchor? b query = some e → ∃ content, m.read b query m.width = .ok {
      slot := some e.1
      score := e.2
      heads := min (min m.config.readHeads Config.maxReadHeads) (m.candidates b query).length
      content } := by
  have hlength : (ranked Ranking.standing (m.candidates b query)).length = (m.candidates b query).length :=
    List.length_mergeSort _
  simp only [read, checkRead_ok hq, checkContents_of_content? hcontents, entries_scores, bind, Except.bind]
  refine ⟨fun hnone => ?_, fun e hsome => ?_⟩
  · rw [List.head?_eq_none_iff.mp hnone, List.take_nil]
    rfl
  · obtain ⟨rest, hranked⟩ : ∃ rest, ranked Ranking.standing (m.candidates b query) = e :: rest :=
      ⟨_, List.eq_cons_of_mem_head? hsome⟩
    obtain ⟨t, ht, hs⟩ := (bestMatch_of_anchor? hsome).here
    obtain ⟨k, hk⟩ : ∃ k, min m.config.readHeads Config.maxReadHeads = k + 1 :=
      ⟨_, (Nat.sub_add_cancel (le_min hheads (by decide))).symm⟩
    rw [← hlength, hranked, hk, List.take_succ_cons]
    have hcount : (e :: rest.take k).length = min (k + 1) (e :: rest).length := by
      simp
    rw [← hcount]
    cases hempty : (rest.take k).isEmpty with
    | true =>
      simp only [hempty, if_true, hcontents _ t ht (isOccupied_of_score? hs).1]
      exact ⟨_, rfl⟩
    | false =>
      simp only [hempty, Bool.false_eq_true, if_false]
      exact ⟨_, rfl⟩

theorem Holds.read_eq (h : m.Holds ws) (hheads : 1 ≤ m.config.readHeads) (hq : query.size = m.width) :
    (m.anchor? b query = none → m.read b query m.width = .ok m.nothing) ∧
    ∀ e, m.anchor? b query = some e → ∃ content, m.read b query m.width = .ok {
      slot := some e.1
      score := e.2
      heads := min m.config.readHeads (m.candidates b query).length
      content } := by
  have hread := Memory.read_eq (b := b) (fun _ _ ht ho => h.content?_ok ht ho) hheads hq
  rw [Nat.min_eq_left h.heads] at hread
  exact hread

/-- **A linked read starts at the same match.** -/
theorem Holds.readLinked_eq (h : m.Holds ws) (hheads : 1 ≤ m.config.readHeads) (hq : query.size = m.width)
    (d : Direction) : (m.anchor? b query = none → m.readLinked b query d m.width = .ok m.nothing) ∧
    ∀ e, m.anchor? b query = some e →
      (m.links.follow e.1 d = none → m.readLinked b query d m.width = .ok m.nothing) ∧
      ∀ slot, m.links.follow e.1 d = some slot → ∃ t, m.slots[slot]? = some t ∧ t.occupied = true ∧
        m.readLinked b query d m.width =
          .ok { slot := some slot, score := e.2, heads := 1, content := t.content } := by
  have hsome : ¬ m.config.readHeads = 0 := by omega
  have hcontents := checkContents_of_content? fun _ _ ht ho => h.content?_ok ht ho
  simp only [readLinked, checkRead_ok hq, hcontents, best?_scores, bind, Except.bind, if_neg hsome]
  refine ⟨fun hnone => by rw [hnone]; rfl, fun e he => ?_⟩
  rw [he]
  refine ⟨fun hnone => by simp only [hnone]; rfl, fun slot hfollow => ?_⟩
  obtain ⟨t, ht, ho⟩ := h.occupied_of_follow hfollow
  refine ⟨t, ht, ho, ?_⟩
  simp only [hfollow, h.content?_ok ht ho]
  rfl

/-! ### Free slots -/

/-- Two memories with the same slots occupied, and the same in them. Their free slots may hold anything. -/
structure SameLive (m m' : Memory) : Prop where
  config : m'.config = m.config
  links : m'.links = m.links
  slots : List.Forall₂ (fun t t' => t'.occupied = t.occupied ∧ (t.occupied = true → t'.content = t.content))
    m.slots.toList m'.slots.toList

namespace SameLive

theorem width (h : m.SameLive m') : m'.width = m.width := congrArg Config.Memory.width h.config

theorem isBacked (h : m.SameLive m') : m'.isBacked = m.isBacked := by
  have hsize : m'.slots.size = m.slots.size := h.slots.length_eq.symm
  simp only [Memory.isBacked, capacity, Array.isEmpty, hsize, h.width]

theorem isEmpty (h : m.SameLive m') : m'.isEmpty = m.isEmpty := by
  have hall {l l' : List Trace}
      (hl : List.Forall₂ (fun t t' => t'.occupied = t.occupied ∧ (t.occupied = true → t'.content = t.content)) l l') :
      l'.any Trace.occupied = l.any Trace.occupied := by
    induction hl with
    | nil => rfl
    | cons ht _ ih => rw [List.any_cons, List.any_cons, ht.1, ih]
  rw [Memory.isEmpty, Memory.isEmpty, ← Array.any_toList, ← Array.any_toList, hall h.slots]

theorem checkContents (h : m.SameLive m') : m'.checkContents = m.checkContents := by
  rw [Memory.checkContents, Memory.checkContents, h.isBacked, h.isEmpty]

theorem nothing (h : m.SameLive m') : m'.nothing = m.nothing := by
  simp only [Memory.nothing, h.width]

theorem score? (h : m.SameLive m') {t t' : Trace} (ho : t'.occupied = t.occupied)
    (hc : t.occupied = true → t'.content = t.content) : m'.score? b query t' = m.score? b query t := by
  unfold Memory.score?
  rw [h.config, ho]
  cases hoccupied : t.occupied with
  | false => simp only [Bool.false_and, Bool.false_eq_true, if_false]
  | true => rw [hc hoccupied]

theorem candidates (h : m.SameLive m') : m'.candidates b query = m.candidates b query := by
  have hall {l l' : List Trace} (k : Nat)
      (hl : List.Forall₂ (fun t t' => t'.occupied = t.occupied ∧ (t.occupied = true → t'.content = t.content)) l l') :
      ((l'.zipIdx k).filterMap fun e => (m'.score? b query e.1).map (e.2, ·)) =
        (l.zipIdx k).filterMap fun e => (m.score? b query e.1).map (e.2, ·) := by
    induction hl generalizing k with
    | nil => rfl
    | cons ht _ ih => simp only [List.zipIdx_cons, List.filterMap_cons, h.score? ht.1 ht.2, ih (k + 1)]
  exact hall 0 h.slots

theorem getElem? (h : m.SameLive m') {i : Nat} {t : Trace} (ht : m.slots[i]? = some t) (ho : t.occupied = true) :
    ∃ t', m'.slots[i]? = some t' ∧ t'.content = t.content := by
  rw [← Array.getElem?_toList] at ht
  obtain ⟨hi, rfl⟩ := List.getElem?_eq_some_iff.mp ht
  have hi' : i < m'.slots.toList.length := h.slots.length_eq ▸ hi
  exact ⟨_, Array.getElem?_eq_getElem (by simpa using hi'), (h.slots.get hi hi').2 ho⟩

theorem content? (h : m.SameLive m') {i : Nat} {t : Trace} (ht : m.slots[i]? = some t) (ho : t.occupied = true) :
    m'.content? i = m.content? i := by
  obtain ⟨t', ht', hcontent⟩ := h.getElem? ht ho
  simp only [Memory.content?, h.isBacked, ht, ht', hcontent]

theorem blend (h : m.SameLive m') {found : List (Nat × Float32)} (hfound : ∀ e ∈ found, e ∈ m.candidates b query) :
    m'.blend b found = m.blend b found := by
  unfold Memory.blend
  dsimp only
  rw [h.config, h.width]
  refine List.foldl_ext _ _ _ fun out e he => ?_
  obtain ⟨t, ht, hs⟩ := mem_candidates.mp (hfound _ (List.of_mem_zip he).1)
  obtain ⟨t', ht', hcontent⟩ := h.getElem? ht (isOccupied_of_score? hs).1
  rw [ht, ht', Option.map_some, Option.map_some, hcontent]

/-- **A read has nothing from free slots.** -/
theorem read (h : m.SameLive m') (b : Backend) (query : Vec) (size : Nat) :
    m'.read b query size = m.read b query size := by
  have hmem : ∀ e ∈ (ranked Ranking.standing (m.candidates b query)).take
      (min m.config.readHeads Config.maxReadHeads), e ∈ m.candidates b query :=
    fun e he => List.mem_mergeSort.mp (List.mem_of_mem_take he)
  simp only [Memory.read, checkRead, h.width, h.config, h.checkContents, entries_scores, h.candidates, h.nothing]
  generalize (ranked Ranking.standing (m.candidates b query)).take _ = found at hmem
  cases found with
  | nil => rfl
  | cons e rest =>
    obtain ⟨t, ht, hs⟩ := mem_candidates.mp (hmem e List.mem_cons_self)
    simp only [h.content? ht (isOccupied_of_score? hs).1, h.blend hmem]

/-- **Neither has a linked read**, as links lead to none of them. -/
theorem readLinked (h : m.SameLive m') (hm : m.Holds ws) (b : Backend) (query : Vec) (d : Direction) (size : Nat) :
    m'.readLinked b query d size = m.readLinked b query d size := by
  simp only [Memory.readLinked, checkRead, h.width, h.config, h.checkContents, best?_scores, anchor?, h.candidates,
    h.nothing, h.links]
  cases (ranked Ranking.standing (m.candidates b query)).head? with
  | none => rfl
  | some e =>
    dsimp only
    cases hfollow : m.links.follow e.1 d with
    | none => rfl
    | some slot =>
      obtain ⟨t, ht, ho⟩ := hm.occupied_of_follow hfollow
      simp only [h.content? ht ho]

end SameLive

/-! ### Both reads together -/

/-- What a read found is the best match, and counts as many as there are and as may be blended. -/
structure Finds (m : Memory) (b : Backend) (query : Vec) (found : Recall) : Prop where
  best : ∀ slot, found.slot = some slot → m.BestMatch b query slot found.score
  none : found.slot = none → found = m.nothing ∧ ∀ t ∈ m.slots, m.score? b query t = none
  heads : found.heads = min m.config.readHeads (m.slots.countP fun t => (m.score? b query t).isSome)

/-- What a linked read found is next to what a read found in the order of writing. -/
structure StepsFrom (m : Memory) (ws : List Nat) (d : Direction) (found linked : Recall) : Prop where
  slot : ∀ slot, linked.slot = some slot ↔ ∃ anchor, found.slot = some anchor ∧ Links.Neighbours ws d anchor slot
  live : ∀ slot, linked.slot = some slot → ∃ t, m.slots[slot]? = some t ∧ t.occupied = true ∧
    linked = { slot := some slot, score := found.score, heads := 1, content := t.content }
  none : linked.slot = none → linked = m.nothing

theorem Holds.read_finds (h : m.Holds ws) (hheads : 1 ≤ m.config.readHeads) (hq : query.size = m.width) :
    ∃ found, m.read b query m.width = .ok found ∧ m.Finds b query found ∧
      found.slot = (m.anchor? b query).map Prod.fst ∧ ∀ e, m.anchor? b query = some e → found.score = e.2 := by
  obtain ⟨hnone, hsome⟩ := h.read_eq (b := b) hheads hq
  rw [length_candidates] at hsome
  cases hanchor : m.anchor? b query with
  | none =>
    have hempty := anchor?_eq_none hanchor
    have hcount : (m.slots.countP fun t => (m.score? b query t).isSome) = 0 := by
      rw [Array.countP_eq_zero]
      intro t ht
      simp [hempty t ht]
    refine ⟨_, hnone hanchor, ⟨nofun, fun _ => ⟨rfl, hempty⟩, ?_⟩, rfl, nofun⟩
    rw [hcount, Nat.min_zero]
    rfl
  | some e =>
    obtain ⟨content, hread⟩ := hsome e hanchor
    refine ⟨_, hread, ⟨fun slot hslot => ?_, nofun, rfl⟩, rfl, fun f hf => ?_⟩
    · cases hslot
      exact bestMatch_of_anchor? hanchor
    · cases hf
      rfl

theorem Holds.readLinked_steps {found : Recall} (h : m.Holds ws) (hheads : 1 ≤ m.config.readHeads)
    (hq : query.size = m.width) (hslot : found.slot = (m.anchor? b query).map Prod.fst)
    (hscore : ∀ e, m.anchor? b query = some e → found.score = e.2) (d : Direction) :
    ∃ linked, m.readLinked b query d m.width = .ok linked ∧ m.StepsFrom ws d found linked := by
  obtain ⟨hnone, hsome⟩ := h.readLinked_eq (b := b) hheads hq d
  cases hanchor : m.anchor? b query with
  | none =>
    rw [hanchor] at hslot
    refine ⟨_, hnone hanchor, ⟨fun slot => ⟨nofun, ?_⟩, nofun, fun _ => rfl⟩⟩
    rintro ⟨anchor, hfound, -⟩
    rw [hslot] at hfound
    cases hfound
  | some e =>
    rw [hanchor] at hslot
    obtain ⟨hend, hnext⟩ := hsome e hanchor
    have hneighbour (slot : Nat) : (∃ anchor, found.slot = some anchor ∧ Links.Neighbours ws d anchor slot) ↔
        m.links.follow e.1 d = some slot := by
      rw [h.linked.follow_iff d, hslot]
      simp
    cases hfollow : m.links.follow e.1 d with
    | none =>
      refine ⟨_, hend hfollow, ⟨fun slot => ?_, nofun, fun _ => rfl⟩⟩
      rw [hneighbour, hfollow]
      rfl
    | some next =>
      obtain ⟨t, ht, ho, hread⟩ := hnext next hfollow
      refine ⟨_, hread, ⟨fun slot => ?_, fun slot hnext => ?_, nofun⟩⟩
      · rw [hneighbour, hfollow]
      · cases hnext
        exact ⟨t, ht, ho, by rw [hscore e hanchor]⟩

/-- **`read` and `readLinked` agree, and see only occupied slots.** Let `m` have come about by the writes `ws` since
it was last empty, through `write`, `clear` and `restore`, with at least one read head. A query of the wrong size is
refused by both. Otherwise `read` succeeds and `Finds` the first of the best matches, `readLinked` in each direction
succeeds and `StepsFrom` that match to the slot written next to it in `ws`, with what this slot holds, and both give
the same in every memory that is `SameLive` to `m`, whatever its free slots hold. -/
theorem Written.reads_agree (h : Written m ws) (hheads : 1 ≤ m.config.readHeads) (b : Backend) (query : Vec) :
    (query.size ≠ m.width →
      m.read b query m.width = .error (.dimension "memory query" m.width query.size) ∧
      ∀ d, m.readLinked b query d m.width = .error (.dimension "memory query" m.width query.size)) ∧
    (query.size = m.width → ∃ found, m.read b query m.width = .ok found ∧ m.Finds b query found ∧
      (∀ d, ∃ linked, m.readLinked b query d m.width = .ok linked ∧ m.StepsFrom ws d found linked) ∧
      ∀ m', m.SameLive m' → m'.read b query m.width = .ok found ∧
        ∀ d, m'.readLinked b query d m.width = m.readLinked b query d m.width) := by
  have hholds := h.holds
  refine ⟨fun hq => ?_, fun hq => ?_⟩
  · have hcheck : m.checkRead query m.width = .error (.dimension "memory query" m.width query.size) := by
      rw [checkRead, expectSize, if_neg (Ne.symm hq)]
      rfl
    simp only [read, readLinked, hcheck, bind, Except.bind]
    exact ⟨trivial, fun _ => trivial⟩
  · obtain ⟨found, hread, hfinds, hslot, hscore⟩ := hholds.read_finds (b := b) hheads hq
    refine ⟨found, hread, hfinds, hholds.readLinked_steps hheads hq hslot hscore, fun m' hsame => ⟨?_, fun d => ?_⟩⟩
    · rw [hsame.read, hread]
    · exact hsame.readLinked hholds b query d m.width

/-- A memory of two slots. -/
def diary : Config.Memory := { slots := 2, width := 2, readHeads := 1, metric := .dot }

/-- The first slot is written again, with what is in the second. Both match alike, so it is the first that a read
finds; what was written before it is in the second, and nothing came after it. -/
theorem reads_agree_of_rewritten : ∃ m found linked, Written m [0, 1, 0] ∧ 1 ≤ m.config.readHeads ∧
    m.read .scalar #[0, 1] m.width = .ok found ∧ found.slot = some 0 ∧
    m.readLinked .scalar #[0, 1] .backward m.width = .ok linked ∧ linked.slot = some 1 ∧
    m.StepsFrom [0, 1, 0] .backward found linked := by
  have hfull : strengthOf 1 = 1 := rfl
  have hnext {m : Memory} {ws : List Nat} (h : Written m ws) (value : Vec) {slot : Nat} {t : Trace} (links : Links)
      (hv : value.size = m.width) (hb : m.isBacked = true) (htarget : m.target? = some slot)
      (ht : m.slots[slot]? = some t) (hlinks : m.links.recordWrite slot = .ok links) :
      Written (m.hold slot value 1 links) (ws ++ [slot]) := by
    have hw : m.write value 1 = _ := write_of_target hv hb htarget ht hlinks
    rw [hfull] at hw
    exact h.write hw
  have h₁ := hnext (.new (rfl : ofConfig diary = .ok (empty diary))) #[1, 0] ⟨#[none, none], #[none, none], some 0⟩
    rfl rfl (by decide +kernel : _ = some 0) rfl rfl
  have h₂ := hnext h₁ #[0, 1] ⟨#[some 1, none], #[none, some 0], some 1⟩
    rfl rfl (by decide +kernel : _ = some 1) rfl rfl
  have h₃ := hnext h₂ #[0, 1] ⟨#[none, some 0], #[some 1, none], some 0⟩
    rfl rfl (by decide +kernel : _ = some 0) rfl rfl
  obtain ⟨found, hread, -, hlinked, -⟩ := (h₃.reads_agree (by decide) .scalar #[0, 1]).2 rfl
  obtain ⟨linked, hback, hsteps⟩ := hlinked .backward
  have hfound : found.slot = some 0 := by
    have hslot : (Except.ok found : Outcome Recall).map Recall.slot = .ok (some 0) := by
      rw [← hread]
      decide +kernel
    exact Except.ok.inj hslot
  have hbefore : Links.Consecutive ([0, 1] ++ [0]) 1 0 :=
    Links.consecutive_concat.mpr (.inr ⟨rfl, by decide, rfl⟩)
  exact ⟨_, found, linked, h₃, by decide, hread, hfound, hback, (hsteps.slot 1).mpr ⟨0, hfound, hbefore⟩, hsteps⟩

end Memory

end NpcMind
