import NpcMind.Proofs.Histories
import NpcMind.Proofs.Singles

/-!
# Feelings stay in their ranges

A tick mixes drift, nudges and whatever the scene holds, and a shift of the relationship adds to it; the
numbers in between may be anything, a NaN included. Both end by moving every component into its range, and
nothing else writes to the affect but what puts a baseline there. So every component of every agent is a
number in its range, and the level of the relationship, which is computed from three of them and the status,
is one from -1 to 1.
-/

namespace NpcMind

open StatePools Outcome

namespace AffectRange

variable {r : AffectRange} {x : Float32}

theorem bounds_le (r : AffectRange) : r.bounds.1 ≤ r.bounds.2 := by
  cases r <;> decide

theorem contains_iff : r.contains x = true ↔ r.bounds.1 ≤ x ∧ x ≤ r.bounds.2 := by
  rw [contains, Bool.and_eq_true, decide_eq_true_eq, decide_eq_true_eq]

theorem contains_zero (r : AffectRange) : r.contains 0 = true := by
  cases r <;> rfl

theorem contains_clamp (r : AffectRange) (hx : x.isNaN = false) : r.contains (r.clamp x) = true :=
  contains_iff.mpr (Single.clamp_mem r.bounds_le hx)

theorem isNaN_of_contains (h : r.contains x = true) : x.isNaN = false :=
  (Single.ne_nan_of_le (contains_iff.mp h).1).2

end AffectRange

theorem Emotion.index_lt (e : Emotion) : e.index < count := by
  cases e <;> decide

namespace Affect

variable {f : Affect}

/-- Every component is there and in its range. -/
structure InRange (f : Affect) : Prop where
  size : f.values.size = Emotion.count
  within : ∀ i, i < Emotion.count → (Emotion.rangeAt i).contains (f.values.getD i 0) = true

theorem InRange.get (h : f.InRange) (e : Emotion) : e.range.contains (f.get e) = true := h.within e.index e.index_lt

/-! ### What is written -/

/-- **Whatever was computed, confining it puts every component in its range.** -/
theorem inRange_confine (h : f.confine.values.size = Emotion.count) : f.confine.InRange := by
  refine ⟨h, fun i hi => ?_⟩
  have hsize : f.confine.values.size = f.values.size := Array.size_mapIdx
  have hlt : i < f.values.size := by omega
  simp only [confine, Array.getD_eq_getD_getElem?, Array.getElem?_mapIdx, Array.getElem?_eq_getElem hlt,
    Option.map_some, Option.getD_some, if_pos hi]
  by_cases hnan : f.values[i].isNaN = true
  · rw [if_pos hnan]
    exact AffectRange.contains_zero _
  · rw [if_neg hnan]
    exact AffectRange.contains_clamp _ (Bool.eq_false_iff.mpr hnan)

theorem InRange.feel (h : f.InRange) (a : Archetype) (s : Stimulus) (retention dt : Float32) :
    (f.feel a s retention dt).InRange :=
  inRange_confine ((SameFrame.feel f a s retention dt).size.trans h.size)

theorem InRange.shift (h : f.InRange) (change : Float32) : (f.shift change).InRange := by
  have hsize := (SameFrame.shift f change).size.trans h.size
  unfold Affect.shift at hsize ⊢
  by_cases hfinite : change.isFinite = true
  · rw [if_pos hfinite] at hsize ⊢
    exact inRange_confine hsize
  · rw [if_neg hfinite]
    exact h

/-- Archetypes settle within the ranges. -/
theorem baseline_within (a : Archetype) : ∀ i, i < Emotion.count →
    (Emotion.rangeAt i).contains (a.baseline.getD i 0) = true := by
  have hall : (List.range Emotion.count).all
      (fun i => (Emotion.rangeAt i).contains (a.baseline.getD i 0)) = true := by
    cases a <;> decide +kernel
  intro i hi
  exact List.all_eq_true.mp hall i (List.mem_range.mpr hi)

/-! ### The level of the relationship -/

/-- Warmth is computed without a NaN, and the status is too small to overflow. -/
theorem InRange.level (h : f.InRange) : -1 ≤ f.level ∧ f.level ≤ 1 := by
  have hunit (e : Emotion) (he : e.range = .unit) : (f.get e).isFinite = true := by
    have hin := h.get e
    rw [he] at hin
    obtain ⟨hlo, hhi⟩ := AffectRange.contains_iff.mp hin
    exact Single.isFinite_of_between hlo hhi rfl rfl
  obtain ⟨hlo, hhi⟩ := AffectRange.contains_iff.mp (h.get .relationshipStatus)
  have hstatus : (0.5 * f.get .relationshipStatus).isFinite = true := Single.isFinite_half_mul hlo hhi
  have htrust : (f.get .trust).isNaN = false := AffectRange.isNaN_of_contains (h.get .trust)
  have hsum : (f.get .trust + f.get .affection + f.get .respect).isNaN = false :=
    Single.isNaN_add (Single.isNaN_add htrust (hunit .affection rfl)) (hunit .respect rfl)
  have hwarmth : ((f.get .trust + f.get .affection + f.get .respect) / 3).isNaN = false :=
    Single.isNaN_div hsum (show (3 : Float32).toModel.unpack = .finite .positive 12582912 (-22) (by decide) from rfl)
  have hdouble := Single.isNaN_mul
    (show (2 : Float32).toModel.unpack = .finite .positive 8388608 (-22) (by decide) from rfl) hwarmth
  have hcentred := Single.isNaN_sub hdouble
    (show (1 : Float32).toModel.unpack = .finite .positive 8388608 (-23) (by decide) from rfl)
  have hhalf := Single.isNaN_mul
    (show (0.5 : Float32).toModel.unpack = .finite .positive 8388608 (-24) (by decide) from rfl) hcentred
  exact Single.clamp_mem (by decide) (Single.isNaN_add hhalf hstatus)

theorem inRange_baseline (a : Archetype) (f : Affect) (h : f.values = a.baseline) : f.InRange where
  size := by rw [h, a.size_baseline]
  within := by
    rw [h]
    exact baseline_within a

end Affect

/-! ### Every agent -/

/-- What an agent feels is in range, and it settles where its archetype does. -/
theorem Agent.Lived.affect {c : Config} {events : List Agent.Event} {a : Agent} (h : a.Lived c events) :
    a.affect.InRange ∧ a.affect.baseline = a.profile.archetype.baseline := by
  induction h with
  | @spawned c profile binding shared handles left a hass =>
    obtain ⟨_, _, _, -, -, rfl⟩ := Agent.assemble_cases hass
    exact ⟨Affect.inRange_baseline profile.archetype _ rfl, rfl⟩
  | ticked _ _ ht ih =>
    obtain ⟨hprofile, haffect, -, -⟩ := Agent.ticked_of_tick ht
    dsimp only
    rw [hprofile, haffect]
    exact ⟨ih.1.feel _ _ _ _, (Affect.SameFrame.feel _ _ _ _ _).baseline.trans ih.2⟩
  | @reset c events a _ ih => exact ⟨Affect.inRange_baseline a.profile.archetype _ ih.2, ih.2⟩
  | rewarded _ hr ih =>
    obtain ⟨_, _, rfl⟩ := Agent.of_reinforce hr
    exact ih
  | shifted change _ ih => exact ⟨ih.1.shift change, (Affect.SameFrame.shift _ change).baseline.trans ih.2⟩
  | resumed _ _ hass hv hrestore ih =>
    obtain ⟨hprofile, haffect, -, -⟩ := Agent.resumed_of_restore hv hrestore
    obtain ⟨_, _, _, -, -, rfl⟩ := Agent.assemble_cases hass
    rw [hprofile, haffect]
    exact ih

/-- **Feelings stay in range.** For every agent `a` of a genuine society, that is, one that loaded only what was
saved: `a.affect` has `Emotion.count` components, each is a number within `e.range.bounds`, its baseline is that of
the archetype, and `a.affect.level` is from -1 to 1. -/
theorem Genuine.feelings_in_range {c : Config} {w : Society} {id : Uuid} {a : Agent} (hw : Genuine c w)
    (ha : w.agent id = .ok a) :
    a.affect.values.size = Emotion.count ∧
    (∀ e : Emotion, (a.affect.get e).isNaN = false ∧
      e.range.bounds.1 ≤ a.affect.get e ∧ a.affect.get e ≤ e.range.bounds.2) ∧
    a.affect.baseline = a.profile.archetype.baseline ∧
    -1 ≤ a.affect.level ∧ a.affect.level ≤ 1 := by
  have hall := hw.experienced
  obtain ⟨states, hheld⟩ := hall.owned.holds_agent ha
  obtain ⟨events, hlived⟩ := hall.holds id a states hheld
  obtain ⟨hrange, hbaseline⟩ := hlived.affect
  refine ⟨hrange.size, fun e => ?_, hbaseline, hrange.level⟩
  have hin := hrange.get e
  exact ⟨AffectRange.isNaN_of_contains hin, AffectRange.contains_iff.mp hin⟩

/-- A rogue talks to a player whose tone is no number, for a time that is none; then its relationship is
shifted. What it feels is a number in range all the same. -/
theorem feelings_in_range_of_nan : ∃ w a, Genuine {} w ∧ w.contains ⟨1, 2⟩ = true ∧
    (w.serveAll [.tick ⟨1, 2⟩ {} { inConversation := true, tone := 0 / 0 } (0 / 0) ⟨3, 4⟩,
      .shiftRelationship ⟨1, 2⟩ 0.5]).agent ⟨1, 2⟩ = .ok a ∧
    (a.affect.get .lastInteractionQuality).isNaN = false ∧ -1 ≤ a.affect.level ∧ a.affect.level ≤ 1 := by
  obtain ⟨w, hw, hid⟩ : ∃ w, Genuine {} w ∧ w.contains ⟨1, 2⟩ = true :=
    ⟨_, .next (.spawn ⟨⟨1, 2⟩, "Vex", .rogue, none⟩) rfl (.start .scalar rfl), rfl⟩
  have hserved := (hw.next (.tick ⟨1, 2⟩ {} { inConversation := true, tone := 0 / 0 } (0 / 0) ⟨3, 4⟩) rfl).next
    (.shiftRelationship ⟨1, 2⟩ 0.5) rfl
  obtain ⟨a₀, states₀, h₀⟩ := hw.sound.owned.holds hid
  have hstays : ∀ r ∈ [Request.tick ⟨1, 2⟩ {} { inConversation := true, tone := 0 / 0 } (0 / 0) ⟨3, 4⟩,
      .shiftRelationship ⟨1, 2⟩ 0.5], r.removes ⟨1, 2⟩ = false := by simp [Request.removes]
  obtain ⟨a, states, ha, -⟩ := h₀.serveAll_lasting (Agent.lasting_lived {}) Society.enduring_true
    hw.sound.owned trivial (hw.experienced.holds _ a₀ states₀ h₀) hstays
  obtain ⟨-, hin, -, hlevel⟩ := Genuine.feelings_in_range hserved ha.agent
  exact ⟨w, a, hw, hid, ha.agent, (hin .lastInteractionQuality).1, hlevel⟩

end NpcMind
