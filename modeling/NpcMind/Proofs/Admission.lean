import NpcMind.Proofs.Restoring

/-!
# What the gossip board admits

The board turns away what is less important than its threshold, and only that. An importance that cannot be compared
with the threshold is not less, so it is admitted as well. Both kinds of offers are counted, from zero after the board
was cleared, and from the writes of a record after one was put back; at all times the board has published as much as
its memory has written. An offer that fails changes nothing, and one that is turned away is counted and nothing else.
-/

namespace NpcMind

namespace Board

open Outcome

variable {c : Config.Memory} {threshold : Float32} {b : Board}

/-! ### Calls -/

/-- What changes a board. -/
inductive Call where
  | publish (value : Vec) (importance : Float32)
  | clear
  | restore (r : MemoryRecord)

/-- Whether an offer was stored, and the board after the call: where it fails, as it was. -/
def serve (b : Board) : Call → Outcome Bool × Board
  | .publish value importance =>
    match b.publish value importance with
    | .ok (stored, b) => (.ok stored, b)
    | .error e => (.error e, b)
  | .clear => (.ok false, b.clear)
  | .restore r =>
    match b.restore r with
    | .ok b => (.ok false, b)
    | .error e => (.error e, b)

/-- What a board was offered since it was last cleared or put back. -/
structure Log where
  /-- How much had been published before. -/
  base : UInt64 := 0
  /-- The importance of each offer that did not fail, the latest first. -/
  offers : List Float32 := []

/-- The log after one more call. -/
def Log.note (log : Log) : Call → Outcome Bool → Log
  | _, .error _ => log
  | .publish _ importance, .ok _ => { log with offers := importance :: log.offers }
  | .clear, .ok _ => {}
  | .restore r, .ok _ => { base := r.writes }

/-- One call to a board of which a log is kept. -/
def step (s : Board × Log) (call : Call) : Board × Log :=
  ((s.1.serve call).2, s.2.note call (s.1.serve call).1)

/-- A board after calls in turn, and the log of them. -/
def run (b : Board) (calls : List Call) : Board × Log := calls.foldl step (b, {})

/-! ### One offer -/

variable {value : Vec} {importance : Float32}

theorem publish_below (h : importance < b.threshold) :
    b.publish value importance = .ok (false, { b with rejected := b.rejected + 1 }) := by
  rw [publish, if_pos h]
  rfl

theorem publish_stored (h : ¬ importance < b.threshold) {stored : Stored} {memory : Memory}
    (hw : b.memory.write value importance = .ok (some stored, memory)) :
    b.publish value importance = .ok (true, { b with memory, published := b.published + 1 }) := by
  rw [publish, if_neg h, hw]
  rfl

theorem publish_failed (h : ¬ importance < b.threshold) {e : Error}
    (hw : b.memory.write value importance = .error e) : b.publish value importance = .error e := by
  rw [publish, if_neg h, hw]
  rfl

/-- What becomes of an offer. It is turned away, or else the memory stores it, if there is a place for it and it has
the width of that. -/
structure Treats (c : Config.Memory) (threshold : Float32) (b : Board) (value : Vec) (importance : Float32) : Prop where
  below : importance < threshold →
    b.serve (.publish value importance) = (.ok false, { b with rejected := b.rejected + 1 })
  stored : ¬ importance < threshold → value.size = c.width → Memory.hasBuffer c.slots c.width = true →
    ∃ stored memory, b.memory.write value importance = .ok (some stored, memory) ∧
      b.serve (.publish value importance) = (.ok true, { b with memory, published := b.published + 1 })
  misfit : ¬ importance < threshold → value.size ≠ c.width →
    b.serve (.publish value importance) = (.error (.dimension "memory write" c.width value.size), b)
  unbacked : ¬ importance < threshold → value.size = c.width → Memory.hasBuffer c.slots c.width = false →
    b.serve (.publish value importance) = (.error .outOfBounds, b)

/-- The board has that threshold, and a memory of that configuration with links in range. -/
structure Ranged (c : Config.Memory) (threshold : Float32) (b : Board) : Prop where
  limit : b.threshold = threshold
  memory : b.memory.Ranged c c.slots

theorem Ranged.isBacked (h : b.Ranged c threshold) (hslots : 0 < c.slots) :
    b.memory.isBacked = Memory.hasBuffer c.slots c.width := by
  rw [h.memory.isBacked, decide_eq_false hslots.ne', Bool.false_or]

theorem Ranged.treats (h : b.Ranged c threshold) (hslots : 0 < c.slots) (value : Vec) (importance : Float32) :
    Treats c threshold b value importance where
  below hlt := by
    simp only [serve, publish_below (h.limit.symm ▸ hlt)]
  stored hlt hv hb := by
    obtain ⟨stored, memory, hw, -⟩ := h.memory.write_some ((h.isBacked hslots).trans hb) hslots hv importance
    refine ⟨stored, memory, hw, ?_⟩
    simp only [serve, publish_stored (h.limit.symm ▸ hlt) hw]
  misfit hlt hv := by
    have hw : b.memory.write value importance = .error (.dimension "memory write" c.width value.size) := by
      rw [Memory.write, expectSize, if_neg (h.memory.width.symm ▸ Ne.symm hv), h.memory.width]
      rfl
    simp only [serve, publish_failed (h.limit.symm ▸ hlt) hw]
  unbacked hlt hv hb := by
    have hw := h.memory.write_unbacked ((h.isBacked hslots).trans hb) hv importance
    simp only [serve, publish_failed (h.limit.symm ▸ hlt) hw]

/-! ### Counting -/

/-- The counters are right: they say how many of the offers in the log were turned away and how many were not, and the
memory says the same about those that were not. -/
structure Counted (c : Config.Memory) (threshold : Float32) (b : Board) (log : Log) : Prop extends
    Ranged c threshold b where
  writes : b.published = b.memory.writes
  published : b.published = log.base + .ofNat (log.offers.countP fun i => !decide (i < threshold))
  rejected : b.rejected = .ofNat (log.offers.countP fun i => decide (i < threshold))

variable {log : Log}

theorem Counted.publish (h : b.Counted c threshold log) (hslots : 0 < c.slots) (value : Vec) (importance : Float32) :
    (b.serve (.publish value importance)).2.Counted c threshold
      (log.note (.publish value importance) (b.serve (.publish value importance)).1) := by
  have htreats := h.treats hslots value importance
  by_cases hlt : importance < threshold
  · rw [htreats.below hlt]
    exact {
      limit := h.limit
      memory := h.memory
      writes := h.writes
      published := by simpa [Log.note, hlt] using h.published
      rejected := by simp [Log.note, hlt, h.rejected] }
  by_cases hv : value.size = c.width
  · cases hb : Memory.hasBuffer c.slots c.width with
    | false =>
      rw [htreats.unbacked hlt hv hb]
      exact h
    | true =>
      obtain ⟨stored, memory, hw, hserve⟩ := htreats.stored hlt hv hb
      obtain ⟨stored', memory', hw', -, hranged, hwrites⟩ :=
        h.memory.write_some ((h.isBacked hslots).trans hb) hslots hv importance
      cases hw.symm.trans hw'
      rw [hserve]
      exact {
        limit := h.limit
        memory := hranged
        writes := by rw [hwrites, ← h.writes]
        published := by simp [Log.note, hlt, h.published, add_assoc]
        rejected := by simpa [Log.note, hlt] using h.rejected }
  · rw [htreats.misfit hlt hv]
    exact h

theorem Counted.clear (h : b.Counted c threshold log) : b.clear.Counted c threshold {} where
  limit := h.limit
  memory := h.memory.clear
  writes := rfl
  published := rfl
  rejected := rfl

theorem Counted.restore (h : b.Counted c threshold log) {r : MemoryRecord} {b' : Board} (hr : b.restore r = .ok b') :
    b'.Counted c threshold { base := r.writes } := by
  obtain ⟨memory, hm, hr⟩ := ok_of_bind hr
  obtain ⟨hsuits, rfl⟩ := Memory.eq_put_of_restore hm
  have hput := Memory.ranged_put hsuits
  rw [h.memory.config, h.memory.capacity] at hput
  cases hr
  exact ⟨⟨h.limit, hput⟩, rfl, (UInt64.add_zero _).symm, rfl⟩

theorem Counted.step (h : b.Counted c threshold log) (hslots : 0 < c.slots) (call : Call) :
    (step (b, log) call).1.Counted c threshold (step (b, log) call).2 := by
  cases call with
  | publish value importance => exact h.publish hslots value importance
  | clear => exact h.clear
  | restore r =>
    cases hr : b.restore r with
    | ok b' => simpa only [Board.step, serve, hr, Log.note] using h.restore hr
    | error e => simpa only [Board.step, serve, hr, Log.note] using h

/-- **The counters stay right**, whatever is asked of the board. -/
theorem Counted.run (h : b.Counted c threshold log) (hslots : 0 < c.slots) (calls : List Call) :
    (calls.foldl Board.step (b, log)).1.Counted c threshold (calls.foldl Board.step (b, log)).2 := by
  induction calls generalizing b log with
  | nil => exact h
  | cons call calls ih => exact ih (h.step hslots call)

theorem counted_of_ofConfig (h : ofConfig c threshold = .ok b) : b.Counted c threshold {} := by
  obtain ⟨memory, hm, h⟩ := ok_of_bind h
  have hfits := Memory.fits_empty c
  rw [Memory.eq_empty_of_ofConfig hm] at h
  cases h
  exact ⟨⟨rfl, hfits.config, hfits.size, hfits.links⟩, rfl, rfl, rfl⟩

/-! ### Numbers -/

/-- A number is below another one or at least it. -/
theorem not_lt_eq_le {x y : Float32} (hx : x.isNaN = false) (hy : y.isNaN = false) :
    (!decide (y < x)) = decide (x ≤ y) := by
  by_cases h : y < x
  · have hnot : ¬ x ≤ y := fun hle => Single.not_lt_of_le hle h
    simp [h, hnot]
  · simp [h, Single.le_of_not_lt hx hy h]

theorem Counted.numbers (h : b.Counted c threshold log) (hthreshold : threshold.isNaN = false)
    (hoffers : ∀ i ∈ log.offers, i.isNaN = false) :
    b.published = log.base + .ofNat (log.offers.countP fun i => decide (threshold ≤ i)) ∧
      b.rejected = .ofNat (log.offers.countP fun i => !decide (threshold ≤ i)) := by
  have heq : ∀ i ∈ log.offers, (!decide (i < threshold)) = decide (threshold ≤ i) :=
    fun i hi => not_lt_eq_le hthreshold (hoffers i hi)
  constructor
  · rw [h.published, List.countP_congr fun i hi => by rw [heq i hi]]
  · refine h.rejected.trans (congrArg UInt64.ofNat (List.countP_congr fun i hi => ?_))
    rw [← heq i hi, Bool.not_not]

/-- **The board turns away exactly what is below its threshold.** After any `calls`, `published` is `memory.writes`;
since the board was last cleared or restored, `rejected` counts the offers `i` with `i < threshold` and `published`
all the others, NaN included. If neither the threshold nor an offer is NaN, the others are those with `threshold ≤ i`.
The next offer is treated the same way (`Treats`). -/
theorem admits_unless_below {b₀ : Board} (hslots : 0 < c.slots) (h : ofConfig c threshold = .ok b₀)
    (calls : List Call) :
    let b := (run b₀ calls).1
    let log := (run b₀ calls).2
    b.published = b.memory.writes ∧
    b.published = log.base + .ofNat (log.offers.countP fun i => !decide (i < threshold)) ∧
    b.rejected = .ofNat (log.offers.countP fun i => decide (i < threshold)) ∧
    (threshold.isNaN = false → (∀ i ∈ log.offers, i.isNaN = false) →
      b.published = log.base + .ofNat (log.offers.countP fun i => decide (threshold ≤ i)) ∧
      b.rejected = .ofNat (log.offers.countP fun i => !decide (threshold ≤ i))) ∧
    ∀ value importance, Treats c threshold b value importance := by
  have hcounted := (counted_of_ofConfig h).run hslots calls
  exact ⟨hcounted.writes, hcounted.published, hcounted.rejected, hcounted.numbers, hcounted.treats hslots⟩

theorem admits_unless_below_unordered :
    ∃ b, ofConfig { slots := 4, width := 3, readHeads := 1 } 0.6 = .ok b ∧ ¬ (0.6 : Float32) ≤ 0 / 0 ∧
      (b.serve (.publish #[1, 2, 3] (0 / 0))).1 = .ok true ∧
      (run b [.publish #[1, 2, 3] (0 / 0)]).1.published = 1 ∧
      (run b [.publish #[1, 2, 3] (0 / 0)]).1.rejected = 0 := by
  obtain ⟨b, hb⟩ : ∃ b, ofConfig { slots := 4, width := 3, readHeads := 1 } 0.6 = .ok b := ⟨_, rfl⟩
  have hafter := admits_unless_below (by decide) hb
  obtain ⟨_, _, -, hserve⟩ := ((hafter []).2.2.2.2 #[1, 2, 3] (0 / 0)).stored (by decide) rfl (by decide +kernel)
  have hanswer : (b.serve (.publish #[1, 2, 3] (0 / 0))).1 = .ok true := congrArg Prod.fst hserve
  have hlog : (run b [.publish #[1, 2, 3] (0 / 0)]).2 = { offers := [0 / 0] } :=
    congrArg (Log.note {} (.publish #[1, 2, 3] (0 / 0))) hanswer
  obtain ⟨-, hpublished, hrejected, -⟩ := hafter [.publish #[1, 2, 3] (0 / 0)]
  rw [hlog] at hpublished hrejected
  exact ⟨b, hb, by decide, hanswer, hpublished.trans (by decide +kernel), hrejected.trans (by decide +kernel)⟩

end Board

end NpcMind
