import Mathlib
import NpcMind.Proofs.Components
import NpcMind.Proofs.Signs

/-!
# Impressions and encounters

Of all talks with the player an agent keeps the tone of the first and of the latest one, and the best and the worst
tone there was. It counts the talks that began well and those that began badly. What comes in is any number, or none; what
is kept was moved into the range from -1 to 1, and compares with what comes in later as if that had been moved, too. So
the impressions are those of the whole history, whatever came between the talks.
-/

namespace NpcMind

open Float.Model Float.Model.UnpackedFloat

/-! ### Tones -/

/-- What is left of a tone: a number from -1 to 1, and zero for a NaN. -/
def impression (x : Float32) : Float32 := if x.isNaN then 0 else Single.signed x

namespace Single

variable {x y z : Float32} {s : Sign} {ts : List Float32}

theorem height_nan (h : x.isNaN = true) : height x = 0 := by
  have hunpack : x.toModel.unpack = .notANumber := UnpackedFloat.isNaN_iff.mp h
  rw [height, hunpack]
  rfl

/-- A number is one of the infinities, or it is finite and lies between them. -/
theorem height_cases (h : x.isNaN = false) :
    (x.toModel.unpack = .infinity .positive ∧ height x = 2139095040) ∨
    (x.toModel.unpack = .infinity .negative ∧ height x = -2139095040) ∨
    (x.isFinite = true ∧ -2139095040 < height x ∧ height x < 2139095040) := by
  have hcanonical : Canonical x.toModel.unpack := (unpack_spec (isNaN_eq_false.mp h)).1
  rw [height, isFinite_iff]
  cases hunpack : x.toModel.unpack with
  | notANumber => exact absurd hunpack (isNaN_eq_false.mp h)
  | infinity s =>
    cases s with
    | positive => exact .inl ⟨rfl, rfl⟩
    | negative => exact .inr (.inl ⟨rfl, rfl⟩)
  | zero s =>
    refine .inr (.inr ⟨.inl ⟨s, rfl⟩, ?_⟩)
    cases s <;> decide
  | finite s m e hm =>
    rw [hunpack] at hcanonical
    obtain ⟨hlow, hhigh, hm, -⟩ := hcanonical
    refine .inr (.inr ⟨.inr ⟨s, m, e, _, rfl⟩, ?_⟩)
    cases s <;> simp only [level, signOf, reach] <;> omega

/-- Nothing is beyond the infinity. -/
theorem le_infinity (h : x.isNaN = false) : x ≤ infinity := by
  rw [le_iff_height h rfl, show height infinity = 2139095040 from rfl]
  rcases height_cases h with ⟨-, h⟩ | ⟨-, h⟩ | ⟨-, -, h⟩ <;> omega

theorem isNaN_impression (x : Float32) : (impression x).isNaN = false := by
  unfold impression
  split
  · rfl
  · next h => exact (ne_nan_of_le (clamp_mem (by decide) (Bool.eq_false_iff.mpr h)).1).2

theorem height_clamp {lo hi : Float32} (h : lo ≤ hi) (hx : x.isNaN = false) :
    height (clamp lo hi x) = max (height lo) (min (height hi) (height x)) := by
  obtain ⟨hlo, hhi⟩ := ne_nan_of_le h
  rw [le_iff_height hlo hhi] at h
  unfold clamp
  split
  · next hlow =>
    rw [lt_iff_height hx hlo] at hlow
    omega
  · next hlow =>
    rw [lt_iff_height hx hlo] at hlow
    split
    · next hhigh =>
      rw [lt_iff_height hhi hx] at hhigh
      omega
    · next hhigh =>
      rw [lt_iff_height hhi hx] at hhigh
      omega

/-- Heights are cut off at those of -1 and 1. -/
theorem height_impression (x : Float32) : height (impression x) = max (-1065353216) (min 1065353216 (height x)) := by
  unfold impression
  split
  · next h =>
    rw [height_nan h]
    decide
  · next h => exact height_clamp (by decide) (Bool.eq_false_iff.mpr h)

theorem impression_impression (x : Float32) : impression (impression x) = impression x := by
  rw [impression, isNaN_impression, if_neg Bool.false_ne_true]
  unfold impression
  split
  · rfl
  · exact clamp_clamp (by decide) x

/-! ### The best and the worst -/

/-- The farthest from zero to one side of all that is left of some tones, or zero. -/
structure Extreme (s : Sign) (ts : List Float32) (x : Float32) : Prop where
  side : 0 ≤ s.apply (height x)
  bound : ∀ t ∈ ts, s.apply (height (impression t)) ≤ s.apply (height x)
  attained : x = 0 ∨ ∃ t ∈ ts, x = impression t

theorem extreme_nil (s : Sign) : Extreme s [] 0 := by
  refine ⟨?_, fun t ht => ?_, .inl rfl⟩
  · cases s <;> decide
  · cases ht

theorem Extreme.impression_eq (h : Extreme s ts x) : impression x = x := by
  obtain rfl | ⟨t, -, rfl⟩ := h.attained
  · rfl
  · exact impression_impression t

/-- **Another tone** replaces the extreme if it is farther out, and is only then moved into range. -/
theorem Extreme.note (h : Extreme s ts x) {farther : Prop} [Decidable farther]
    (hfarther : farther ↔ y.isNaN = false ∧ s.apply (height x) < s.apply (height y)) :
    Extreme s (ts ++ [y]) (impression (if farther then y else x)) := by
  have hx := height_impression x
  have hy := height_impression y
  have hside := h.side
  rw [h.impression_eq] at hx
  by_cases hf : farther
  · -- The new one is farther out than the old one, which is in range; so what is left of it is as far out.
    obtain ⟨-, hlt⟩ := hfarther.mp hf
    rw [if_pos hf]
    have hle : s.apply (height x) ≤ s.apply (height (impression y)) := by
      cases s <;> simp only [Sign.apply] at hlt hside ⊢ <;> omega
    refine ⟨hside.trans hle, fun t ht => ?_, .inr ⟨y, by simp, rfl⟩⟩
    rcases List.mem_append.mp ht with ht | ht
    · exact (h.bound t ht).trans hle
    · rw [List.mem_singleton.mp ht]
  · have hle : s.apply (height (impression y)) ≤ s.apply (height x) := by
      cases hnan : y.isNaN with
      | true =>
        rw [height_nan hnan] at hy
        cases s <;> simp only [Sign.apply] at hside ⊢ <;> omega
      | false =>
        have hnot : ¬ s.apply (height x) < s.apply (height y) := fun hlt => hf (hfarther.mpr ⟨hnan, hlt⟩)
        cases s <;> simp only [Sign.apply] at hside hnot ⊢ <;> omega
    rw [if_neg hf, h.impression_eq]
    refine ⟨hside, fun t ht => ?_, ?_⟩
    · rcases List.mem_append.mp ht with ht | ht
      · exact h.bound t ht
      · rwa [List.mem_singleton.mp ht]
    · refine h.attained.imp_right fun hold => ?_
      obtain ⟨t, ht, heq⟩ := hold
      exact ⟨t, List.mem_append_left _ ht, heq⟩

theorem Extreme.isNaN (h : Extreme s ts x) : x.isNaN = false := h.impression_eq ▸ isNaN_impression x

theorem Extreme.note_greater (h : Extreme .positive ts x) (y : Float32) :
    Extreme .positive (ts ++ [y]) (impression (if y > x then y else x)) := by
  refine h.note ⟨fun hlt => ?_, fun hfar => ?_⟩
  · obtain ⟨hx, hy⟩ := ne_nan_of_lt hlt
    exact ⟨hy, (lt_iff_height hx hy).mp hlt⟩
  · exact (lt_iff_height h.isNaN hfar.1).mpr hfar.2

theorem Extreme.note_less (h : Extreme .negative ts x) (y : Float32) :
    Extreme .negative (ts ++ [y]) (impression (if y < x then y else x)) := by
  refine h.note ⟨fun hlt => ?_, fun hfar => ?_⟩
  · obtain ⟨hy, hx⟩ := ne_nan_of_lt hlt
    exact ⟨hy, Int.neg_lt_neg ((lt_iff_height hy hx).mp hlt)⟩
  · exact (lt_iff_height hfar.1 h.isNaN).mpr (Int.neg_lt_neg_iff.mp hfar.2)

theorem Extreme.greatest (h : Extreme .positive ts x) : 0 ≤ x ∧ ∀ t ∈ ts, impression t ≤ x :=
  ⟨(le_iff_height rfl h.isNaN).mpr h.side, fun t ht => (le_iff_height (isNaN_impression t) h.isNaN).mpr (h.bound t ht)⟩

theorem Extreme.least (h : Extreme .negative ts x) : x ≤ 0 ∧ ∀ t ∈ ts, x ≤ impression t :=
  ⟨(le_iff_height h.isNaN rfl).mpr (neg_nonneg.mp h.side),
    fun t ht => (le_iff_height h.isNaN (isNaN_impression t)).mpr (Int.neg_le_neg_iff.mp (h.bound t ht))⟩

end Single

namespace Affect

variable {f : Affect} {a : Archetype} {s : Stimulus} {e : Emotion} {retention dt : Float32}

/-! ### One talk -/

/-- A talk of that tone that begins is counted in that component. -/
def Counts (tone : Float32) (e : Emotion) : Prop :=
  e = .positiveInteractions ∧ tone > 0.5 ∨ e = .negativeInteractions ∧ tone < -0.5

instance (tone : Float32) (e : Emotion) : Decidable (Counts tone e) :=
  inferInstanceAs (Decidable (_ ∧ _ ∨ _ ∧ _))

/-- A talk that begins is counted as good, as bad or not at all. -/
def tally (f : Affect) (tone : Float32) : Affect :=
  if tone > 0.5 then f.raise .positiveInteractions 1
  else if tone < -0.5 then f.raise .negativeInteractions 1
  else f

theorem AllBut.tally (f : Affect) (tone : Float32) :
    AllBut [.positiveInteractions, .negativeInteractions] f (f.tally tone) :=
  .ite ((refl _ f).raise (by decide) 1) (.ite ((refl _ f).raise (by decide) 1) (refl _ f))

theorem sameFrame_tally (f : Affect) (tone : Float32) : SameFrame f (f.tally tone) :=
  .ite (.raise ⟨rfl, rfl⟩ _ _) (.ite (.raise ⟨rfl, rfl⟩ _ _) ⟨rfl, rfl⟩)

theorem get_tally (h : f.values.size = Emotion.count) (tone : Float32) (e : Emotion) :
    (f.tally tone).get e = if Counts tone e then f.get e + 1 else f.get e := by
  by_cases hgood : 0.5 < tone
  · have hnot : ¬ tone < -0.5 := fun hbad => absurd (Single.lt_trans hgood hbad) (by decide)
    simp only [tally, Counts, raise, get_put h, hgood, hnot, GT.gt, if_true, and_true, and_false, or_false]
    grind
  · simp only [tally, Counts, raise, get_ite, get_put h, hgood, GT.gt, if_false, and_false, false_or]
    grind

theorem meet_eq (f : Affect) (tone : Float32) : f.meet tone =
    if f.metPlayer then f.tally tone else { (f.tally tone).put .firstMeetingQuality tone with metPlayer := true } := by
  rw [← (AllBut.tally f tone).met]
  rfl

theorem get_meet (h : f.values.size = Emotion.count) (tone : Float32) (e : Emotion) : (f.meet tone).get e =
    if e = .firstMeetingQuality ∧ f.metPlayer = false then tone
    else if Counts tone e then f.get e + 1 else f.get e := by
  rw [meet_eq, ← get_tally h]
  cases f.metPlayer with
  | true => simp
  | false =>
    change ((f.tally tone).put .firstMeetingQuality tone).get e = _
    simp [get_put ((sameFrame_tally f tone).size.trans h), eq_comm]

theorem met_meet (f : Affect) (tone : Float32) : (f.meet tone).metPlayer = true := by
  rw [meet_eq]
  split
  · next hmet => exact (AllBut.tally f tone).met.trans hmet
  · rfl

theorem get_impress (h : f.values.size = Emotion.count) (tone : Float32) :
    (f.impress tone).get .lastInteractionQuality = tone ∧
    (f.impress tone).get .strongestPositiveMemory =
      (if tone > f.get .strongestPositiveMemory then tone else f.get .strongestPositiveMemory) ∧
    (f.impress tone).get .strongestNegativeMemory =
      (if tone < f.get .strongestNegativeMemory then tone else f.get .strongestNegativeMemory) := by
  have hite {c : Prop} [Decidable c] {g g' : Affect} (hg : g.values.size = Emotion.count)
      (hg' : g'.values.size = Emotion.count) : (if c then g else g').values.size = Emotion.count := by
    split <;> assumption
  simp [impress, get_ite, get_put, size_put, hite, h]

/-- What talks leave behind. -/
def impressions : List Emotion := [.firstMeetingQuality, .lastInteractionQuality, .strongestPositiveMemory,
  .strongestNegativeMemory]

/-- The components that keep what happened between agent and player. -/
def lasting : List Emotion := [.positiveInteractions, .negativeInteractions] ++ impressions

theorem get_greet (h : f.values.size = Emotion.count) (he : e ∈ lasting) : (f.greet s dt).get e =
    if f.wasInConversation then f.get e
    else if e = .firstMeetingQuality ∧ f.metPlayer = false then s.tone
    else if Counts s.tone e then f.get e + 1 else f.get e := by
  have hclear : ∀ e ∈ lasting, e ∉ stirred := by decide
  obtain ⟨g, -, htalk, hframe, hgreet⟩ := of_greet f s dt
  rw [hgreet, get_ite, get_meet (hframe.size.trans h), htalk.met, htalk.get e (hclear e he)]

theorem met_greet (f : Affect) (s : Stimulus) (dt : Float32) :
    (f.greet s dt).metPlayer = (f.metPlayer || !f.wasInConversation) := by
  obtain ⟨g, -, htalk, -, hgreet⟩ := of_greet f s dt
  rw [hgreet]
  cases f.wasInConversation with
  | true => simp [htalk.met]
  | false => simp [met_meet g s.tone]

/-- Only a talk touches what is kept of the talks. -/
theorem get_feel_lasting (h : f.InRange) (he : e ∈ lasting) : (f.feel a s retention dt).get e =
    if s.inConversation then e.confined ((((f.settle (Single.pow retention (duration dt))).greet s
      (duration dt)).impress s.tone).get e) else f.get e := by
  have hclear : ∀ e ∈ lasting, e ∉ [.fear, .joy, .trust] ∧ e ∉ [.loneliness] ∧ e.decays = false ∧
      e ∉ situation := by decide
  obtain ⟨hendure, hwait, hdecays, hobserve⟩ := hclear e he
  rw [feel_eq, get_feelKeeping h.size (fun g => (AllBut.endure g a s _).get e hendure) hobserve, engage, get_ite]
  split
  · rfl
  · rw [(AllBut.wait _ _).get e hwait, get_settle h.size, hdecays, if_neg Bool.false_ne_true,
      Emotion.confined_of_contains (h.get e)]

/-- What is kept of the talks, as the tone of this one finds it. -/
theorem get_greet_settle (h : f.values.size = Emotion.count) (he : e ∈ lasting) (kept : Float32) :
    ((f.settle kept).greet s dt).get e =
      if f.wasInConversation then f.get e
      else if e = .firstMeetingQuality ∧ f.metPlayer = false then s.tone
      else if Counts s.tone e then f.get e + 1 else f.get e := by
  have hdecays : ∀ e ∈ lasting, e.decays = false := by decide
  rw [get_greet (Array.size_mapIdx.trans h) he, get_settle h, hdecays e he, if_neg Bool.false_ne_true]
  rfl

/-- One more than a count is a count. -/
theorem contains_succ {x : Float32} (h : AffectRange.counter.contains x = true) :
    AffectRange.counter.contains (x + 1) = true := by
  obtain ⟨hlow, -⟩ := AffectRange.contains_iff.mp h
  have hnan : (x + 1).isNaN = false := Single.isNaN_add (AffectRange.isNaN_of_contains h) rfl
  refine AffectRange.contains_iff.mpr ⟨Single.le_of_not_lt rfl hnan fun hneg => ?_, ?_⟩
  · rcases Single.neg_of_add hneg with hx | hone
    · exact Single.not_lt_of_le hlow hx
    · exact absurd hone (by decide)
  · exact Single.le_infinity hnan

/-- **Counting.** A talk counts when it begins, by its tone then. -/
theorem get_feel_count (h : f.InRange) (he : e ∈ [.positiveInteractions, .negativeInteractions]) :
    (f.feel a s retention dt).get e =
      if s.inConversation = true ∧ f.wasInConversation = false ∧ Counts s.tone e then f.get e + 1 else f.get e := by
  have hclear : ∀ e ∈ [.positiveInteractions, .negativeInteractions], e ∈ lasting ∧ e ≠ .firstMeetingQuality ∧
      e.range = .counter ∧ e ∉ remembered := by decide
  obtain ⟨hlasting, hfirst, hrange, himpress⟩ := hclear e he
  have hin := h.get e
  rw [get_feel_lasting h hlasting, (AllBut.impress _ _).get e himpress, get_greet_settle h.size hlasting]
  rw [hrange] at hin
  have hone : e.confined (f.get e + 1) = f.get e + 1 := Emotion.confined_of_contains (hrange ▸ contains_succ hin)
  have hsame : e.confined (f.get e) = f.get e := Emotion.confined_of_contains (h.get e)
  by_cases hcounts : Counts s.tone e <;> cases s.inConversation <;> cases f.wasInConversation <;>
    simp [hfirst, hcounts, hone, hsame]

/-- The first talk leaves its tone, and no other. -/
theorem get_feel_first (h : f.InRange) : (f.feel a s retention dt).get .firstMeetingQuality =
    if s.inConversation = true ∧ f.wasInConversation = false ∧ f.metPlayer = false then impression s.tone
    else f.get .firstMeetingQuality := by
  have hsame : Emotion.confined .firstMeetingQuality (f.get .firstMeetingQuality) = f.get .firstMeetingQuality :=
    Emotion.confined_of_contains (h.get _)
  have hnot : ¬ Counts s.tone .firstMeetingQuality := by simp [Counts]
  have hleft : Emotion.confined .firstMeetingQuality s.tone = impression s.tone := rfl
  rw [get_feel_lasting h (by decide), (AllBut.impress _ _).get _ (by decide), get_greet_settle h.size (by decide)]
  cases s.inConversation <;> cases f.wasInConversation <;> cases f.metPlayer <;> simp [hnot, hsame, hleft]

/-- The latest tone, and the best and the worst one so far. -/
theorem get_feel_impress (h : f.InRange) (a : Archetype) (s : Stimulus) (retention dt : Float32) :
    (f.feel a s retention dt).get .lastInteractionQuality =
      (if s.inConversation then impression s.tone else f.get .lastInteractionQuality) ∧
    (f.feel a s retention dt).get .strongestPositiveMemory =
      (if s.inConversation then impression (if s.tone > f.get .strongestPositiveMemory then s.tone
        else f.get .strongestPositiveMemory) else f.get .strongestPositiveMemory) ∧
    (f.feel a s retention dt).get .strongestNegativeMemory =
      (if s.inConversation then impression (if s.tone < f.get .strongestNegativeMemory then s.tone
        else f.get .strongestNegativeMemory) else f.get .strongestNegativeMemory) := by
  have hsize : ((f.settle (Single.pow retention (duration dt))).greet s (duration dt)).values.size = Emotion.count :=
    (sameFrame_greet _ s _).size.trans (Array.size_mapIdx.trans h.size)
  have hpast (e : Emotion) (he : e ∈ [.strongestPositiveMemory, .strongestNegativeMemory]) :
      ((f.settle (Single.pow retention (duration dt))).greet s (duration dt)).get e = f.get e := by
    have hclear : ∀ e ∈ [.strongestPositiveMemory, .strongestNegativeMemory], e ∈ lasting ∧
        e ≠ .firstMeetingQuality ∧ e ≠ .positiveInteractions ∧ e ≠ .negativeInteractions := by decide
    obtain ⟨hlasting, hfirst, hgood, hbad⟩ := hclear e he
    simp [get_greet_settle h.size hlasting, Counts, hfirst, hgood, hbad]
  obtain ⟨hlast, hbest, hworst⟩ := get_impress hsize s.tone
  rw [hpast _ (by decide)] at hbest hworst
  rw [get_feel_lasting h (by decide), get_feel_lasting h (by decide), get_feel_lasting h (by decide), hlast, hbest,
    hworst]
  exact ⟨rfl, rfl, rfl⟩

theorem flags_confine (f : Affect) :
    f.confine.wasInConversation = f.wasInConversation ∧ f.confine.metPlayer = f.metPlayer := ⟨rfl, rfl⟩

theorem flags_feel (f : Affect) (a : Archetype) (s : Stimulus) (retention dt : Float32) :
    (f.feel a s retention dt).wasInConversation = s.inConversation ∧
    (f.feel a s retention dt).metPlayer = (f.metPlayer || (s.inConversation && !f.wasInConversation)) := by
  rw [feel_eq]
  generalize Single.pow retention (duration dt) = kept
  generalize duration dt = time
  have hrest (g : Affect) : ((g.endure a s time).observe s).confine.wasInConversation = g.wasInConversation ∧
      ((g.endure a s time).observe s).confine.metPlayer = g.metPlayer := by
    rw [(flags_confine _).1, (flags_confine _).2, (AllBut.observe _ s).talking, (AllBut.observe _ s).met]
    exact ⟨(AllBut.endure g a s time).talking, (AllBut.endure g a s time).met⟩
  have hengage : ((f.settle kept).engage s time).metPlayer =
      (f.metPlayer || (s.inConversation && !f.wasInConversation)) := by
    unfold engage
    cases s.inConversation with
    | true =>
      rw [if_pos rfl, (AllBut.impress _ s.tone).met, met_greet]
      rfl
    | false =>
      rw [if_neg Bool.false_ne_true, (AllBut.wait _ time).met]
      exact (Bool.or_false _).symm
  unfold feelKeeping
  dsimp only
  rw [(hrest _).1, (hrest _).2]
  exact ⟨rfl, hengage⟩

/-! ### Whole histories -/

/-- What may happen to an agent's affect. -/
inductive Deed where
  | feel (s : Stimulus) (retention dt : Float32)
  | shift (change : Float32)

/-- The affect of an agent after a deed. -/
def act (f : Affect) (a : Archetype) : Deed → Affect
  | .feel s retention dt => f.feel a s retention dt
  | .shift change => f.shift change

/-- The affect of an agent after some deeds, in their order. -/
def after (f : Affect) (a : Archetype) (ds : List Deed) : Affect := ds.foldl (·.act a ·) f

/-- The tone of the talk in a deed. -/
def Deed.tone? : Deed → Option Float32
  | .feel s _ _ => if s.inConversation then some s.tone else none
  | .shift _ => none

/-- The tones of all talks, in their order. -/
def tones (ds : List Deed) : List Float32 := ds.filterMap Deed.tone?

/-- There is a talk after a deed, if there was one before as told. -/
def Deed.talking (before : Bool) : Deed → Bool
  | .feel s _ _ => s.inConversation
  | .shift _ => before

/-- The last time anything was felt, there was a talk. -/
def talking (ds : List Deed) : Bool := ds.foldl Deed.talking false

/-- An affect remembers the talks of a history. -/
structure Recalls (ds : List Deed) (f : Affect) : Prop where
  inRange : f.InRange
  talking : f.wasInConversation = talking ds
  met : f.metPlayer = !(tones ds).isEmpty
  talked : f.wasInConversation = true → f.metPlayer = true
  first : f.get .firstMeetingQuality = ((tones ds).head?.map impression).getD 0
  last : f.get .lastInteractionQuality = ((tones ds).getLast?.map impression).getD 0
  best : Single.Extreme .positive (tones ds) (f.get .strongestPositiveMemory)
  worst : Single.Extreme .negative (tones ds) (f.get .strongestNegativeMemory)

theorem recalls_initial (a : Archetype) : Recalls [] (initial a) := by
  have hzero : ∀ e ∈ lasting, (initial a).get e = 0 := by
    cases a <;> decide +kernel
  refine ⟨inRange_baseline a _ rfl, rfl, rfl, fun h => h, ?_, ?_, ?_, ?_⟩
  · rw [hzero _ (by decide)]
    rfl
  · rw [hzero _ (by decide)]
    rfl
  · rw [hzero _ (by decide)]
    exact Single.extreme_nil _
  · rw [hzero _ (by decide)]
    exact Single.extreme_nil _

variable {ds : List Deed}

theorem AllBut.refreshStatus {f' : Affect} {es : List Emotion} (h : AllBut es f f')
    (he : Emotion.relationshipStatus ∈ es) : AllBut es f f'.refreshStatus := h.put he _

/-- A shift is felt, and counted in part; it leaves no impression. -/
theorem AllBut.shift (h : f.InRange) (change : Float32) : AllBut [.trust, .affection, .positiveInteractions,
    .negativeInteractions, .relationshipStatus] f (f.shift change) := by
  have hsize := (SameFrame.shift f change).size.trans h.size
  unfold Affect.shift at hsize ⊢
  split
  · next hfinite =>
    rw [if_pos hfinite] at hsize
    have hwarm := ((refl [.trust, .affection, .positiveInteractions, .negativeInteractions, .relationshipStatus]
      f).raise (e := .trust) (by decide) (0.5 * Single.signed change)).raise (e := .affection) (by decide)
      (0.3 * Single.signed change)
    have hcounted := AllBut.ite (c := Single.signed change > 0)
      (hwarm.raise (e := .positiveInteractions) (by decide) (Single.signed change))
      (hwarm.raise (e := .negativeInteractions) (by decide) (-Single.signed change))
    have hstatus := hcounted.refreshStatus (by decide)
    refine ⟨fun e he => ?_, hstatus.talking, hstatus.met⟩
    rw [get_confine (Array.size_mapIdx.symm.trans hsize)]
    exact (congrArg e.confined (hstatus.get e he)).trans (Emotion.confined_of_contains (h.get e))
  · exact refl _ f

theorem get_shift (h : f.InRange) (change : Float32) : ∀ e ∈ impressions, (f.shift change).get e = f.get e := by
  have hclear : ∀ e ∈ impressions, e ∉ [.trust, .affection, .positiveInteractions, .negativeInteractions,
      .relationshipStatus] := by decide
  exact fun e he => (AllBut.shift h change).get e (hclear e he)

/-- **What is no talk** changes nothing of what is kept of the talks. -/
theorem Recalls.unchanged {f' : Affect} {d : Deed} (h : Recalls ds f) (htone : d.tone? = none) (hrange : f'.InRange)
    (htalking : f'.wasInConversation = d.talking f.wasInConversation) (hmet : f'.metPlayer = f.metPlayer)
    (hget : ∀ e ∈ impressions, f'.get e = f.get e) : Recalls (ds ++ [d]) f' := by
  have htones : tones (ds ++ [d]) = tones ds := by simp [tones, htone]
  have hbefore : d.talking f.wasInConversation = true → f.wasInConversation = true := by
    cases d with
    | feel s retention dt =>
      intro hs
      simp only [Deed.tone?, show s.inConversation = true from hs, if_true] at htone
      cases htone
    | shift change => exact id
  refine ⟨hrange, ?_, ?_, ?_, ?_, ?_, ?_, ?_⟩
  · rw [htalking, h.talking]
    simp [Affect.talking]
  · rw [hmet, htones, h.met]
  · rw [htalking, hmet]
    exact fun hnow => h.talked (hbefore hnow)
  · rw [hget _ (by decide), htones, h.first]
  · rw [hget _ (by decide), htones, h.last]
  · rw [hget _ (by decide), htones]
    exact h.best
  · rw [hget _ (by decide), htones]
    exact h.worst

theorem Recalls.shift (h : Recalls ds f) (change : Float32) : Recalls (ds ++ [.shift change]) (f.shift change) := by
  have hall := AllBut.shift h.inRange change
  exact h.unchanged rfl (h.inRange.shift change) hall.talking hall.met (get_shift h.inRange change)

theorem Recalls.feel_alone (h : Recalls ds f) (a : Archetype) (hs : s.inConversation = false) (retention dt : Float32) :
    Recalls (ds ++ [.feel s retention dt]) (f.feel a s retention dt) := by
  have hlasting : ∀ e ∈ impressions, e ∈ lasting := by decide
  obtain ⟨htalking, hmet⟩ := flags_feel f a s retention dt
  rw [hs, Bool.false_and, Bool.or_false] at hmet
  refine h.unchanged (by simp [Deed.tone?, hs]) (h.inRange.feel a s retention dt) htalking hmet fun e he => ?_
  rw [get_feel_lasting h.inRange (hlasting e he), hs, if_neg Bool.false_ne_true]

/-- **A talk** is remembered, whether it begins or goes on. -/
theorem Recalls.feel_talk (h : Recalls ds f) (a : Archetype) (hs : s.inConversation = true) (retention dt : Float32) :
    Recalls (ds ++ [.feel s retention dt]) (f.feel a s retention dt) := by
  have htones : tones (ds ++ [.feel s retention dt]) = tones ds ++ [s.tone] := by simp [tones, Deed.tone?, hs]
  obtain ⟨htalking, hmet⟩ := flags_feel f a s retention dt
  obtain ⟨hlast, hbest, hworst⟩ := get_feel_impress h.inRange a s retention dt
  rw [hs] at htalking
  have hmet : (f.feel a s retention dt).metPlayer = true := by
    have htalked := h.talked
    rw [hmet, hs]
    revert htalked
    cases f.wasInConversation <;> simp
  refine ⟨h.inRange.feel a s retention dt, ?_, ?_, ?_, ?_, ?_, ?_, ?_⟩
  · rw [htalking]
    simp [Affect.talking, Deed.talking, hs]
  · rw [hmet, htones]
    simp
  · exact fun _ => hmet
  · have htalked := h.talked
    have hmet := h.met
    rw [get_feel_first h.inRange, hs, htones, h.first]
    cases hpast : tones ds with
    | nil =>
      rw [hpast] at hmet
      rw [hmet] at htalked ⊢
      cases hwas : f.wasInConversation with
      | true => exact absurd (htalked hwas) Bool.false_ne_true
      | false => rfl
    | cons t ts =>
      rw [hpast] at hmet
      simp [hmet]
  · rw [hlast, hs, if_pos rfl, htones]
    simp
  · rw [hbest, hs, if_pos rfl, htones]
    exact h.best.note_greater s.tone
  · rw [hworst, hs, if_pos rfl, htones]
    exact h.worst.note_less s.tone

theorem Recalls.act (h : Recalls ds f) (a : Archetype) (d : Deed) : Recalls (ds ++ [d]) (f.act a d) := by
  cases d with
  | shift change => exact h.shift change
  | feel s retention dt =>
    cases hs : s.inConversation with
    | true => exact h.feel_talk a hs retention dt
    | false => exact h.feel_alone a hs retention dt

theorem Recalls.after (h : Recalls ds f) (a : Archetype) (more : List Deed) :
    Recalls (ds ++ more) (f.after a more) := by
  induction more generalizing ds f with
  | nil => simpa [Affect.after] using h
  | cons d more ih => simpa [Affect.after] using ih (h.act a d)

/-- **Impressions and counters summarise the run.** Let `f` be `Fresh`, and `ds` any deeds, that is, calls of `feel`
and `shift`, with `tones ds` those of the talks among them. Read by `impression`, which clamps to `[-1, 1]` and takes
NaN as zero, the first and the last tone are `firstMeetingQuality` and `lastInteractionQuality`, and the largest and
the least of zero and all of them `strongestPositiveMemory` and `strongestNegativeMemory`. A further `feel` adds one
to `positiveInteractions` exactly if a talk begins in it with a tone above 0.5, and to `negativeInteractions` exactly
if one begins with a tone below -0.5; `shift` changes none of the four impressions. -/
theorem impressions_of_tones (hfresh : Fresh a f) (ds : List Deed) :
    (f.after a ds).get .firstMeetingQuality = ((tones ds).head?.map impression).getD 0 ∧
    (f.after a ds).get .lastInteractionQuality = ((tones ds).getLast?.map impression).getD 0 ∧
    (∃ best, (f.after a ds).get .strongestPositiveMemory = best ∧ 0 ≤ best ∧
      (∀ t ∈ tones ds, impression t ≤ best) ∧ (best = 0 ∨ ∃ t ∈ tones ds, best = impression t)) ∧
    (∃ worst, (f.after a ds).get .strongestNegativeMemory = worst ∧ worst ≤ 0 ∧
      (∀ t ∈ tones ds, worst ≤ impression t) ∧ (worst = 0 ∨ ∃ t ∈ tones ds, worst = impression t)) ∧
    (∀ s retention dt, ((f.after a ds).feel a s retention dt).get .positiveInteractions =
      if s.inConversation = true ∧ talking ds = false ∧ s.tone > 0.5 then
        (f.after a ds).get .positiveInteractions + 1
      else (f.after a ds).get .positiveInteractions) ∧
    (∀ s retention dt, ((f.after a ds).feel a s retention dt).get .negativeInteractions =
      if s.inConversation = true ∧ talking ds = false ∧ s.tone < -0.5 then
        (f.after a ds).get .negativeInteractions + 1
      else (f.after a ds).get .negativeInteractions) ∧
    ∀ change, ∀ e ∈ impressions, ((f.after a ds).shift change).get e = (f.after a ds).get e := by
  have h : Recalls ds (f.after a ds) := hfresh.eq ▸ (recalls_initial a).after a ds
  refine ⟨h.first, h.last, ⟨_, rfl, h.best.greatest.1, h.best.greatest.2, h.best.attained⟩,
    ⟨_, rfl, h.worst.least.1, h.worst.least.2, h.worst.attained⟩, fun s retention dt => ?_, fun s retention dt => ?_,
    fun change e he => ?_⟩
  · rw [get_feel_count h.inRange (by decide), h.talking]
    simp [Counts]
  · rw [get_feel_count h.inRange (by decide), h.talking]
    simp [Counts]
  · exact get_shift h.inRange change e he

/-- A rogue is talked to in no tone at all, then far too warmly, and coldly after a silence. -/
theorem impressions_of_tones_of_rogue : ∃ f ds, Fresh .rogue f ∧ tones ds = [0 / 0, 5, -0.7] ∧ talking ds = true ∧
    (f.after .rogue ds).get .firstMeetingQuality = 0 ∧ (f.after .rogue ds).get .lastInteractionQuality = -0.7 ∧
    1 ≤ (f.after .rogue ds).get .strongestPositiveMemory ∧ (f.after .rogue ds).get .strongestNegativeMemory ≤ -0.7 ∧
    ∀ dt, ((f.after .rogue ds).feel .rogue { inConversation := true, tone := 0.9 } 0.5 dt).get .positiveInteractions =
      (f.after .rogue ds).get .positiveInteractions := by
  let ds : List Deed := [.feel { inConversation := true, tone := 0 / 0 } 0.5 1,
    .feel { inConversation := true, tone := 5 } 0.5 (0 / 0), .shift 0.5, .feel {} 0 1,
    .feel { inConversation := true, tone := -0.7 } 1 2]
  have hfresh : Fresh .rogue (initial .rogue).reset := .inr ⟨initial .rogue, rfl, rfl⟩
  have htones : tones ds = [0 / 0, 5, -0.7] := rfl
  obtain ⟨hfirst, hlast, hbest, hworst, hgood, -⟩ := impressions_of_tones hfresh ds
  rw [htones] at hfirst hlast hbest hworst
  obtain ⟨best, hbest, -, hgreatest, -⟩ := hbest
  obtain ⟨worst, hworst, -, hleast, -⟩ := hworst
  have htalking : talking ds = true := rfl
  have hcold : impression (-0.7) = -0.7 := rfl
  refine ⟨_, ds, hfresh, htones, htalking, hfirst, hlast.trans hcold, ?_, ?_, fun dt => ?_⟩
  · rw [hbest]
    exact hgreatest 5 (by simp)
  · rw [hworst, ← hcold]
    exact hleast (-0.7) (by simp)
  · simp only [hgood, htalking, Bool.true_eq_false, false_and, and_false, if_false]

end Affect

end NpcMind
