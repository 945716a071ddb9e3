import NpcMind.Proofs.Feelings

/-!
# Affect, component by component

What an agent feels changes in stages, and each stage writes to a few components. What a stage leaves alone is read
through it, so a component after a change is found from the stages that write to it, and from the range it is moved
into at the end.
-/

namespace NpcMind

namespace AffectRange

variable {r : AffectRange} {x : Float32}

/-- What lies in a range stays where it is. -/
theorem clamp_of_contains (h : r.contains x = true) : r.clamp x = x := by
  obtain ⟨hlo, hhi⟩ := contains_iff.mp h
  rw [clamp, Single.clamp, if_neg (Single.not_lt_of_le hlo), if_neg (Single.not_lt_of_le hhi)]

end AffectRange

namespace Emotion

theorem ofIndex?_index (e : Emotion) : ofIndex? e.index = some e := by
  cases e <;> rfl

theorem index_inj {e e' : Emotion} : e.index = e'.index ↔ e = e' := by
  refine ⟨fun h => Option.some_inj.mp ?_, congrArg index⟩
  rw [← ofIndex?_index, h, ofIndex?_index]

/-- A value of a component moved into its range; a NaN becomes zero. -/
def confined (e : Emotion) (x : Float32) : Float32 := if x.isNaN then 0 else e.range.clamp x

theorem confined_of_contains {e : Emotion} {x : Float32} (h : e.range.contains x = true) : e.confined x = x := by
  rw [confined, AffectRange.isNaN_of_contains h, if_neg Bool.false_ne_true, AffectRange.clamp_of_contains h]

end Emotion

namespace Affect

variable {f f' f'' : Affect} {e e' : Emotion} {es : List Emotion} {a : Archetype} {s : Stimulus}
  {x tone kept dt : Float32}

/-! ### One component -/

theorem size_put (f : Affect) (e : Emotion) (x : Float32) : (f.put e x).values.size = f.values.size :=
  Array.size_setIfInBounds

theorem get_put_of_ne (h : e ≠ e') (f : Affect) (x : Float32) : (f.put e x).get e' = f.get e' := by
  have hne : e.index ≠ e'.index := fun heq => h (Emotion.index_inj.mp heq)
  simp [get, put, hne]

theorem get_put (h : f.values.size = Emotion.count) (e e' : Emotion) (x : Float32) :
    (f.put e x).get e' = if e = e' then x else f.get e' := by
  split
  · next heq =>
    have hlt : e.index < f.values.size := h ▸ e.index_lt
    simp [← heq, get, put, hlt]
  · next hne => exact get_put_of_ne hne f x

theorem get_ite (c : Prop) [Decidable c] (f f' : Affect) (e : Emotion) :
    (if c then f else f').get e = if c then f.get e else f'.get e := apply_ite (get · e) c f f'

theorem size_confine (f : Affect) : f.confine.values.size = f.values.size := Array.size_mapIdx

theorem get_confine (h : f.values.size = Emotion.count) (e : Emotion) : f.confine.get e = e.confined (f.get e) := by
  have hlt : e.index < f.values.size := h ▸ e.index_lt
  simp [get, confine, Emotion.confined, Emotion.range, hlt, e.index_lt]

/-- Where a component drifts to. -/
def home (f : Affect) (e : Emotion) : Float32 := f.baseline.getD e.index 0

theorem get_settle (h : f.values.size = Emotion.count) (e : Emotion) (kept : Float32) : (f.settle kept).get e =
    if e.decays then f.home e + (f.get e - f.home e) * kept else f.get e := by
  have hlt : e.index < f.values.size := h ▸ e.index_lt
  simp [get, settle, Emotion.decays, home, hlt]

/-! ### What a stage leaves alone -/

/-- What the mood of a talk touches. -/
def stirred : List Emotion := [.trust, .affection, .joy, .fear, .anger, .loneliness, .timeTogether]

/-- What every talk may write, as soon as it is there. -/
def remembered : List Emotion := [.lastInteractionQuality, .strongestPositiveMemory, .strongestNegativeMemory]

/-- What is set anew each time. -/
def situation : List Emotion := [.locationFamiliarity, .socialSetting, .threatLevel, .playerMood, .relationshipStatus,
  .sharedGoalProgress]

/-- The same but for those components, and for the time since the last talk. -/
structure AllBut (es : List Emotion) (f f' : Affect) : Prop where
  get : ∀ e, e ∉ es → f'.get e = f.get e
  talking : f'.wasInConversation = f.wasInConversation
  met : f'.metPlayer = f.metPlayer

namespace AllBut

theorem refl (es : List Emotion) (f : Affect) : AllBut es f f := ⟨fun _ _ => rfl, rfl, rfl⟩

theorem put (h : AllBut es f f') (he : e ∈ es) (x : Float32) : AllBut es f (f'.put e x) := by
  refine ⟨fun e' he' => ?_, h.talking, h.met⟩
  have hne : e ≠ e' := fun heq => he' (heq ▸ he)
  rw [get_put_of_ne hne, h.get e' he']

theorem raise (h : AllBut es f f') (he : e ∈ es) (x : Float32) : AllBut es f (f'.raise e x) := h.put he _

theorem ease (h : AllBut es f f') (he : e ∈ es) (rate dt : Float32) : AllBut es f (f'.ease e rate dt) := h.put he _

theorem ite {c : Prop} [Decidable c] (h : AllBut es f f') (h' : AllBut es f f'') :
    AllBut es f (if c then f' else f'') := by
  split
  · exact h
  · exact h'

theorem converse (f : Affect) (tone dt : Float32) : AllBut stirred f (f.converse tone dt) := by
  have hself := refl stirred f
  unfold Affect.converse
  refine (ease (AllBut.ite ?_ (.ite ?_ hself)) (by decide) _ _).raise (by decide) _
  · exact (((((hself.raise (by decide) _).raise (by decide) _).raise (by decide) _).ease (by decide) _ _).ease
      (by decide) _ _).ease (by decide) _ _
  · exact (((hself.raise (by decide) _).raise (by decide) _).ease (by decide) _ _).ease (by decide) _ _

theorem impress (f : Affect) (tone : Float32) : AllBut remembered f (f.impress tone) := by
  have hlast := (refl remembered f).put (e := .lastInteractionQuality) (by decide) tone
  have hbest := AllBut.ite (c := tone > (f.put .lastInteractionQuality tone).get .strongestPositiveMemory)
    (hlast.put (e := .strongestPositiveMemory) (by decide) tone) hlast
  exact (hbest.put (by decide) tone).ite hbest

theorem wait (f : Affect) (dt : Float32) : AllBut [.loneliness] f (f.wait dt) := by
  have hself : AllBut [.loneliness] f { f with sinceInteraction := f.sinceInteraction + dt } := ⟨fun _ _ => rfl, rfl, rfl⟩
  exact (hself.raise (by decide) _).ite hself

theorem endure (f : Affect) (a : Archetype) (s : Stimulus) (dt : Float32) :
    AllBut [.fear, .joy, .trust] f (f.endure a s dt) := by
  have hself := refl [.fear, .joy, .trust] f
  have hfear := hself.raise (e := .fear) (by decide) (0.3 * dt)
  unfold Affect.endure
  have hcombat := AllBut.ite (c := s.combat > 0.5) (AllBut.ite (c := a.relishesCombat)
    (hfear.raise (e := .joy) (by decide) (0.12 * dt)) (hfear.raise (e := .fear) (by decide) (0.18 * dt))) hself
  exact ((hcombat.raise (by decide) _).ease (by decide) _ _).ite hcombat

/-- Without danger, trust stays as it is. -/
theorem endure_calm (hcalm : ¬ s.threat > 0.7) (f : Affect) (a : Archetype) (dt : Float32) :
    AllBut [.fear, .joy] f (f.endure a s dt) := by
  have hself := refl [.fear, .joy] f
  have hfear := hself.raise (e := .fear) (by decide) (0.3 * dt)
  unfold Affect.endure
  dsimp only
  rw [if_neg hcalm]
  exact .ite (.ite (hfear.raise (by decide) _) (hfear.raise (by decide) _)) hself

theorem observe (f : Affect) (s : Stimulus) : AllBut situation f (f.observe s) :=
  ((((((refl _ f).put (by decide) _).put (by decide) _).put (by decide) _).put (by decide) _).put
    (by decide) _).put (by decide) _

end AllBut

/-! ### The stages of a change -/

/-- The time that passes: none, where it is not finite or negative. -/
def duration (dt : Float32) : Float32 := if dt.isFinite then Single.larger dt 0 else 0

/-- The affect in a talk, before that leaves an impression. -/
def greet (f : Affect) (s : Stimulus) (dt : Float32) : Affect :=
  let g := { f.converse s.tone dt with sinceInteraction := 0 }
  if f.wasInConversation then g else g.meet s.tone

/-- Talk, or time alone. -/
def engage (f : Affect) (s : Stimulus) (dt : Float32) : Affect :=
  if s.inConversation then (f.greet s dt).impress s.tone else f.wait dt

/-- The affect after some time, that has left that share of the distance to the baseline. -/
def feelKeeping (f : Affect) (a : Archetype) (s : Stimulus) (kept dt : Float32) : Affect :=
  let engaged := { (f.settle kept).engage s dt with wasInConversation := s.inConversation }
  ((engaged.endure a s dt).observe s).confine

theorem feel_eq (f : Affect) (a : Archetype) (s : Stimulus) (retention dt : Float32) : f.feel a s retention dt =
    f.feelKeeping a s (Single.pow retention (duration dt)) (duration dt) := by
  unfold feel feelKeeping engage greet duration
  generalize (if dt.isFinite then Single.larger dt 0 else 0) = time
  dsimp only
  rw [show (f.settle (Single.pow retention time)).wasInConversation = f.wasInConversation from rfl]
  cases s.inConversation <;> cases f.wasInConversation <;> simp only [Bool.and_true, Bool.and_false, Bool.not_true,
    Bool.not_false, Bool.false_eq_true, if_true, if_false]

/-- A talk stirs a few feelings, and one that begins is met with what they are then. -/
theorem of_greet (f : Affect) (s : Stimulus) (dt : Float32) : ∃ g : Affect,
    (∀ e, g.get e = (f.converse s.tone dt).get e) ∧ AllBut stirred f g ∧ SameFrame f g ∧
    f.greet s dt = if f.wasInConversation then g else g.meet s.tone := by
  have htalk := AllBut.converse f s.tone dt
  have hframe := SameFrame.converse (f := f) ⟨rfl, rfl⟩ s.tone dt
  exact ⟨{ f.converse s.tone dt with sinceInteraction := 0 }, fun _ => rfl, ⟨htalk.get, htalk.talking, htalk.met⟩,
    ⟨hframe.baseline, hframe.size⟩, rfl⟩

theorem sameFrame_greet (f : Affect) (s : Stimulus) (dt : Float32) : SameFrame f (f.greet s dt) := by
  obtain ⟨g, -, -, hframe, hgreet⟩ := of_greet f s dt
  rw [hgreet]
  exact hframe.ite (hframe.meet s.tone)

theorem sameFrame_engage (f : Affect) (s : Stimulus) (dt : Float32) : SameFrame f (f.engage s dt) :=
  .ite ((sameFrame_greet f s dt).impress s.tone) (.wait ⟨rfl, rfl⟩ dt)

theorem sameFrame_feelKeeping (f : Affect) (a : Archetype) (s : Stimulus) (kept dt : Float32) :
    SameFrame f (f.feelKeeping a s kept dt) := by
  have hengage := sameFrame_engage (f.settle kept) s dt
  have hframe : SameFrame f { (f.settle kept).engage s dt with wasInConversation := s.inConversation } :=
    ⟨hengage.baseline, hengage.size.trans Array.size_mapIdx⟩
  exact ((hframe.endure a s dt).observe s).confine

/-- **A component after a change**, read through the stages that leave it alone. -/
theorem get_feelKeeping (h : f.values.size = Emotion.count)
    (hendure : ∀ g : Affect, (g.endure a s dt).get e = g.get e) (hobserve : e ∉ situation) :
    (f.feelKeeping a s kept dt).get e = e.confined (((f.settle kept).engage s dt).get e) := by
  have hsize := (sameFrame_feelKeeping f a s kept dt).size.trans h
  unfold feelKeeping at hsize ⊢
  dsimp only at hsize ⊢
  rw [size_confine] at hsize
  rw [get_confine hsize, (AllBut.observe _ s).get e hobserve, hendure]
  rfl

/-! ### Beginnings -/

/-- Fresh, or fresh again. -/
def Fresh (a : Archetype) (f : Affect) : Prop :=
  f = initial a ∨ ∃ g : Affect, g.baseline = a.baseline ∧ f = g.reset

theorem Fresh.eq (h : Fresh a f) : f = initial a := by
  obtain rfl | ⟨g, hg, rfl⟩ := h
  · rfl
  · rw [reset, hg]
    rfl

end Affect

end NpcMind
