import NpcMind.Mind.Attention
import NpcMind.Proofs.Fractions
import NpcMind.Proofs.Validity

/-!
# Attention within bounds

The attention to a channel fades, is renewed by news, and is moved by the presence of the player. News may be of any
size, and what was sensed may be no number at all. Still every level stays a number from 0 to 1: news is never
negative, and no archetype is curious to a negative degree, so what is added to a level is not negative either, and
what rises too far is cut off. The novelty of a tick is a mean of numbers from 0 to 1, and so at most 1 however the
sum was rounded.
-/

namespace NpcMind

open Single (Fraction)

namespace Archetype

/-- Every archetype is curious to some degree. -/
theorem curiosity_pos (a : Archetype) : 0 < a.baseline.getD Emotion.curiosity.index 0 := by
  cases a <;> decide +kernel

theorem regionBias_pos (a : Archetype) (r : Region) : 0 < a.regionBias r := by
  unfold regionBias
  split <;> decide

theorem fraction_focus (a : Archetype) : Fraction a.focus.2 := by
  cases a <;> exact ⟨by decide, by decide⟩

end Archetype

namespace Attention

variable {t : Attention} {c : Config.Temper} {level : Float32}

/-! ### The attention to one channel -/

theorem fraction_renew (hdecay : Fraction c.attentionDecay) (hlevel : Fraction level) (a : Archetype) (r : Region)
    (expected sensed : Float32) : Fraction (renew a c r level expected sensed) := by
  have hfaded : Fraction (level * c.attentionDecay) := hlevel.mul hdecay
  unfold renew
  dsimp only
  split
  · apply Single.fraction_smaller
    apply Single.not_neg_add (Single.not_lt_of_le hfaded.nonneg)
    apply Single.not_neg_mul _ (Single.lt_asymm (a.regionBias_pos r))
    exact Single.not_neg_mul (Single.not_neg_abs _) (Single.lt_asymm a.curiosity_pos)
  · exact hfaded

theorem fraction_attract (hlevel : Fraction level) (p : Percept) (inConversation : Bool) (r : Region) :
    Fraction (attract p inConversation r level) := by
  have hlarger {x : Float32} (hx : Fraction x) (b : Bool) : Fraction (if b then Single.larger level x else level) := by
    split
    · exact hlevel.larger hx
    · exact hlevel
  cases r with
  | vision => exact hlarger ⟨by decide, by decide⟩ _
  | audio => exact hlarger ⟨by decide, by decide⟩ _
  | internal => exact hlevel
  | context => exact hlevel
  | social =>
    unfold attract
    dsimp only
    split
    · exact hlevel.larger ⟨by decide, by decide⟩
    · split
      · exact hlevel
      · exact hlevel.mul ⟨by decide, by decide⟩

/-! ### Novelty -/

/-- Ones are counted exactly, as far as there are channels. -/
theorem sum_ones : (List.replicate channelCount 1).foldl (· + ·) (0 : Float32) = channelCount.toFloat32 := by
  -- A quarter at a time, so that the evaluation does not nest too deeply.
  have hquarter : (List.replicate 128 1).foldl (· + ·) (0 : Float32) = 128 := by decide +kernel
  have hhalf : (List.replicate 128 1).foldl (· + ·) (128 : Float32) = 256 := by decide +kernel
  have hmost : (List.replicate 128 1).foldl (· + ·) (256 : Float32) = 384 := by decide +kernel
  have hall : (List.replicate 128 1).foldl (· + ·) (384 : Float32) = channelCount.toFloat32 := by decide +kernel
  rw [show channelCount = 128 + 128 + 128 + 128 from rfl, ← List.replicate_append_replicate,
    ← List.replicate_append_replicate, ← List.replicate_append_replicate, List.foldl_append, List.foldl_append,
    List.foldl_append, hquarter, hhalf, hmost]
  exact hall

/-- **The novelty of a tick** lies between the least one and 1. -/
theorem meanNovelty_mem (expectation channels : Vec) :
    leastNovelty ≤ meanNovelty expectation channels ∧ meanNovelty expectation channels ≤ 1 := by
  obtain ⟨news, hnews⟩ : ∃ news : Vec, news = (Array.range channelCount).map fun i =>
    Single.smaller (surprise (expectation.getD i 0) (channels.getD i 0)) 1 := ⟨_, rfl⟩
  have hmean : meanNovelty expectation channels =
      Single.larger (Vec.total news / channelCount.toFloat32) leastNovelty := by
    rw [hnews]
    rfl
  have hfractions : ∀ x ∈ news.toList, Fraction x := by
    intro x hx
    rw [hnews, Array.mem_toList_iff, Array.mem_map] at hx
    obtain ⟨i, -, rfl⟩ := hx
    exact Single.fraction_smaller (Single.not_neg_abs _)
  have hcount : news.toList.length = channelCount := by
    rw [hnews]
    simp
  have htotal : Vec.total news = news.toList.foldl (· + ·) 0 := (Array.foldl_toList _).symm
  have hlow := (Single.foldl_fractions hfractions (x := 0) (by decide) (by decide)).1
  have hhigh := Single.foldl_le_ones hfractions (x := 0) (y := 0) (by decide) (by decide) (by decide)
  rw [hcount, sum_ones] at hhigh
  rw [← htotal] at hlow hhigh
  have hquotient := Single.fraction_quotient hlow hhigh (by decide) (by decide)
  rw [hmean]
  exact ⟨Single.le_larger _ (by decide), (hquotient.larger ⟨by decide, by decide⟩).le_one⟩

/-! ### Runs -/

/-- Attention within bounds: a level from 0 to 1 for each channel, and a novelty from the least one to 1. -/
structure Bounded (t : Attention) : Prop where
  size : t.levels.size = channelCount
  levels : ∀ level ∈ t.levels, Fraction level
  novelty : leastNovelty ≤ t.novelty ∧ t.novelty ≤ 1

theorem bounded_initial (a : Archetype) : (initial a).Bounded where
  size := by simp [initial]
  levels := by
    intro level hlevel
    obtain ⟨i, -, rfl⟩ := Array.mem_map.mp hlevel
    split
    · exact a.fraction_focus
    · exact Single.fraction_zero
  novelty := by
    show leastNovelty ≤ leastNovelty ∧ leastNovelty ≤ 1
    decide

/-- **A tick keeps attention within bounds**, whatever is sensed in it. -/
theorem Bounded.update (h : t.Bounded) (hdecay : Fraction c.attentionDecay) (channels : Vec) (p : Percept)
    (inConversation : Bool) (a : Archetype) : (t.update channels p inConversation a c).Bounded where
  size := by
    rw [← h.size]
    exact Array.size_mapIdx
  levels := by
    intro level hlevel
    obtain ⟨i, hi, rfl⟩ := Array.mem_mapIdx.mp hlevel
    have hold : Fraction t.levels[i] := h.levels _ (Array.getElem_mem hi)
    split
    · exact fraction_attract (fraction_renew hdecay hold _ _ _ _) _ _ _
    · exact hold
  novelty := meanNovelty_mem _ _

/-- What can happen to attention. -/
inductive Move where
  /-- A tick, in which anything may be sensed. -/
  | update (channels : Vec) (percept : Percept) (inConversation : Bool) (archetype : Archetype)
  /-- A new start, with nothing expected. -/
  | reset (archetype : Archetype)

/-- The attention after a move. -/
def follow (c : Config.Temper) (t : Attention) : Move → Attention
  | .update channels p inConversation a => t.update channels p inConversation a c
  | .reset a => initial a

/-- The attention of an archetype after moves from its start. -/
def run (a : Archetype) (c : Config.Temper) (moves : List Move) : Attention := moves.foldl (follow c) (initial a)

theorem Bounded.follow (h : t.Bounded) (hdecay : Fraction c.attentionDecay) (move : Move) :
    (t.follow c move).Bounded := by
  cases move with
  | update channels p inConversation a => exact h.update hdecay channels p inConversation a
  | reset a => exact bounded_initial a

theorem bounded_run (a : Archetype) (hdecay : Fraction c.attentionDecay) (moves : List Move) :
    (run a c moves).Bounded :=
  List.foldlRecOn (motive := Bounded) moves _ (bounded_initial a) fun _ h move _ => h.follow hdecay move

/-- **Levels and novelty stay within bounds.** For a valid configuration and any `moves`, each an update or a reset,
`run a c.temper moves` has `channelCount` levels, all of them numbers from 0 to 1, and a novelty from `leastNovelty`
to 1, so that an `importance` from 0 to 1 times the novelty is from 0 to 1 as well. -/
theorem attention_stays_bounded {c : Config} (hc : c.validate = .ok ()) (a : Archetype) (moves : List Move) :
    (run a c.temper moves).levels.size = channelCount ∧
    (∀ level ∈ (run a c.temper moves).levels, level.isNaN = false ∧ 0 ≤ level ∧ level ≤ 1) ∧
    leastNovelty ≤ (run a c.temper moves).novelty ∧ (run a c.temper moves).novelty ≤ 1 ∧
    ∀ importance : Float32, 0 ≤ importance → importance ≤ 1 →
      0 ≤ importance * (run a c.temper moves).novelty ∧ importance * (run a c.temper moves).novelty ≤ 1 := by
  have hdecay := (Config.accepted_of_validate hc).attentionDecay
  have hbounded := bounded_run a ⟨hdecay.1, hdecay.2⟩ moves
  have hnovelty : Fraction (run a c.temper moves).novelty :=
    ⟨Single.le_trans (by decide) hbounded.novelty.1, hbounded.novelty.2⟩
  refine ⟨hbounded.size, ?_, hbounded.novelty.1, hbounded.novelty.2, ?_⟩
  · intro level hlevel
    have hfraction := hbounded.levels level hlevel
    exact ⟨hfraction.isNaN, hfraction.nonneg, hfraction.le_one⟩
  · intro importance hlow hhigh
    have hproduct := Fraction.mul ⟨hlow, hhigh⟩ hnovelty
    exact ⟨hproduct.nonneg, hproduct.le_one⟩

/-- A tick in which every channel is infinite, and one in which none is a number. -/
def glare : List Move :=
  [.update (Array.replicate channelCount Single.infinity) { playerVisible := true } false .rogue,
    .update (Array.replicate channelCount (0 / 0)) {} false .rogue]

theorem attention_stays_bounded_glare : ({} : Config).validate = .ok () ∧ (0 : Float32) ≤ 1 ∧
    (∀ level ∈ (run .rogue ({} : Config).temper glare).levels, level.isNaN = false ∧ 0 ≤ level ∧ level ≤ 1) ∧
    leastNovelty ≤ (run .rogue ({} : Config).temper glare).novelty ∧
    1 * (run .rogue ({} : Config).temper glare).novelty ≤ 1 := by
  have hbounded := attention_stays_bounded (c := {}) rfl .rogue glare
  exact ⟨rfl, by decide, hbounded.2.1, hbounded.2.2.1, (hbounded.2.2.2.2 1 (by decide) (by decide)).2⟩

end Attention

end NpcMind
