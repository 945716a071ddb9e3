import NpcMind.Proofs.Fractions

/-!
# Friendly talks

In a friendly talk trust and affection are raised by an amount that depends on the time alone, after they drifted toward
the baseline by a share that depends on the time alone. So one map takes each of them from one time to the next, whatever
else happens. It keeps the order of what it is applied to, rounding included, and does not take the baseline below
itself. Hence what starts at the baseline never falls, however the drift and the talk pull.
-/

namespace NpcMind

/-! ### Drift and nudge -/

namespace Single

variable {b kept nudge x y lo hi : Float32}

theorem clamp_mono (hrange : lo ≤ hi) (h : x ≤ y) : clamp lo hi x ≤ clamp lo hi y := by
  obtain ⟨hx, hy⟩ := ne_nan_of_le h
  have hnan {z : Float32} (hz : z.isNaN = false) : (clamp lo hi z).isNaN = false :=
    (ne_nan_of_le (clamp_mem hrange hz).1).2
  rw [le_iff_height (hnan hx) (hnan hy), height_clamp hrange hx, height_clamp hrange hy]
  rw [le_iff_height hx hy] at h
  omega

/-- What is left of a value after it drifted toward another, with something added. -/
def drifted (b kept nudge x : Float32) : Float32 := b + (x - b) * kept + nudge

/-- The distance that is left does not overflow. -/
theorem isFinite_drift (hb : Fraction b) (hk : Fraction kept) (hx : Fraction x) : (x - b).isFinite = true ∧
    ((x - b) * kept).isFinite = true ∧ (b + (x - b) * kept).isFinite = true := by
  have hdistance := hx.below.sub hb.below (by decide) (by decide)
  have hleft := hdistance.mul hk.below (by decide) (by decide)
  exact ⟨hdistance.isFinite, hleft.isFinite, isFinite_add_of_below hb.isFinite (hleft.mono (by decide))⟩

/-- **Drifting keeps the order.** -/
theorem drifted_mono (hb : Fraction b) (hk : Fraction kept) (hnudge : nudge.isFinite = true) (hx : Fraction x)
    (hy : Fraction y) (h : x ≤ y) : drifted b kept nudge x ≤ drifted b kept nudge y := by
  obtain ⟨hx₁, hx₂, hx₃⟩ := isFinite_drift hb hk hx
  obtain ⟨hy₁, hy₂, hy₃⟩ := isFinite_drift hb hk hy
  have hdistance := difference_mono hx.isFinite hy.isFinite hb.isFinite h
  have hleft := product_mono hx₁ hy₁ hk.isFinite hdistance hk.nonneg
  have hdrift := sum_mono hb.isFinite hb.isFinite hx₂ hy₂ (le_refl (isNaN_of_isFinite hb.isFinite)) hleft
  exact sum_mono hx₃ hy₃ hnudge hnudge hdrift (le_refl (isNaN_of_isFinite hnudge))

/-- What is there already stays there, or gets more. -/
theorem le_drifted (hb : Fraction b) (hk : Fraction kept) (hnudge : nudge.isFinite = true) (h : 0 ≤ nudge) :
    b ≤ drifted b kept nudge b := by
  obtain ⟨h₁, h₂, h₃⟩ := isFinite_drift hb hk hb
  have hself := (beq_iff_le.mp (beq_difference_self hb.isFinite)).2
  have hleft := product_nonneg h₁ hk.isFinite hself hk.nonneg
  exact le_trans (le_sum hb.isFinite h₂ hleft) (le_sum h₃ hnudge h)

end Single

namespace Emotion

variable {e : Emotion} {b kept nudge x y : Float32}

/-- Moved into range, values keep their order. -/
theorem confined_mono (h : x ≤ y) : e.confined x ≤ e.confined y := by
  obtain ⟨hx, hy⟩ := Single.ne_nan_of_le h
  rw [confined, confined, hx, hy, if_neg Bool.false_ne_true, if_neg Bool.false_ne_true]
  exact Single.clamp_mono e.range.bounds_le h

theorem fraction_of_contains (he : e.range = .unit) (h : e.range.contains x = true) : Single.Fraction x := by
  rw [he] at h
  exact ⟨(AffectRange.contains_iff.mp h).1, (AffectRange.contains_iff.mp h).2⟩

/-- What a component becomes that drifts toward its baseline and is nudged. -/
def moved (e : Emotion) (b kept nudge x : Float32) : Float32 := e.confined (Single.drifted b kept nudge x)

theorem contains_confined (e : Emotion) (x : Float32) : e.range.contains (e.confined x) = true := by
  unfold confined
  split
  · exact AffectRange.contains_zero _
  · next h => exact AffectRange.contains_clamp _ (Bool.eq_false_iff.mpr h)

theorem contains_moved (hb : e.range.contains b = true) (kept nudge : Float32) (n : ℕ) :
    e.range.contains ((e.moved b kept nudge)^[n] b) = true := by
  cases n with
  | zero => exact hb
  | succ n =>
    rw [Function.iterate_succ_apply']
    exact contains_confined e _

/-- **What is moved by a map that keeps the order** never falls, as the first step does not take it down. -/
theorem moved_rises (he : e.range = .unit) (hb : e.range.contains b = true) (hk : Single.Fraction kept)
    (hfinite : nudge.isFinite = true) (h : 0 ≤ nudge) (n : ℕ) :
    (e.moved b kept nudge)^[n] b ≤ (e.moved b kept nudge)^[n + 1] b := by
  have hb' := fraction_of_contains he hb
  induction n with
  | zero =>
    have hle := confined_mono (e := e) (Single.le_drifted hb' hk hfinite h)
    rwa [confined_of_contains hb] at hle
  | succ n ih =>
    have hx := fraction_of_contains he (contains_moved hb kept nudge n)
    have hy := fraction_of_contains he (contains_moved hb kept nudge (n + 1))
    rw [Function.iterate_succ_apply' _ n, Function.iterate_succ_apply' _ (n + 1)]
    exact confined_mono (Single.drifted_mono hb' hk hfinite hx hy ih)

theorem le_moved (he : e.range = .unit) (hb : e.range.contains b = true) (hk : Single.Fraction kept)
    (hfinite : nudge.isFinite = true) (h : 0 ≤ nudge) (n : ℕ) : b ≤ (e.moved b kept nudge)^[n] b := by
  induction n with
  | zero => exact Single.le_refl (AffectRange.isNaN_of_contains hb)
  | succ n ih => exact Single.le_trans ih (moved_rises he hb hk hfinite h n)

end Emotion

namespace Affect

variable {f : Affect} {a : Archetype} {s : Stimulus} {e : Emotion} {retention kept dt : Float32}

/-! ### One talk -/

/-- The stimulus is a friendly talk, away from danger. -/
structure Friendly (s : Stimulus) : Prop where
  talk : s.inConversation = true
  warm : s.tone > 0.5
  calm : ¬ s.threat > 0.7

/-- What a friendship is made of. -/
def bonds : List Emotion := [.trust, .affection]

/-- What a second of a friendly talk adds. -/
def warmth (e : Emotion) : Float32 := if e = .trust then 0.2 else 0.1

theorem get_converse_friendly (h : f.values.size = Emotion.count) (he : e ∈ bonds) {tone : Float32}
    (htone : tone > 0.5) : (f.converse tone dt).get e = f.get e + warmth e * dt := by
  have htone : 0.5 < tone := htone
  rcases List.mem_cons.mp he with rfl | he
  · simp [converse, htone, raise, ease, get_put, size_put, h, warmth]
  · rw [List.mem_singleton.mp he]
    simp [converse, htone, raise, ease, get_put, size_put, h, warmth]

/-- **A friendly talk** moves trust and affection by one map, whatever else there is. -/
theorem get_feelKeeping_friendly (h : f.values.size = Emotion.count) (he : e ∈ bonds) (hs : Friendly s) :
    (f.feelKeeping a s kept dt).get e = e.moved (f.home e) kept (warmth e * dt) (f.get e) := by
  have hclear : ∀ e ∈ bonds, e ∉ [.fear, .joy] ∧ e.decays = true ∧ e ≠ .firstMeetingQuality ∧
      e ≠ .positiveInteractions ∧ e ≠ .negativeInteractions ∧
      e ∉ remembered ∧ e ∉ situation := by decide
  obtain ⟨hendure, hdecays, hfirst, hgood, hbad, himpress, hobserve⟩ := hclear e he
  have hsettle : (f.settle kept).values.size = Emotion.count := Array.size_mapIdx.trans h
  obtain ⟨g, hg, -, hframe, hgreet⟩ := of_greet (f.settle kept) s dt
  have hmeet : (g.meet s.tone).get e = g.get e := by
    simp [get_meet (hframe.size.trans hsettle), Counts, hfirst, hgood, hbad]
  rw [get_feelKeeping h (fun g => (AllBut.endure_calm hs.calm g a dt).get e hendure) hobserve, engage, hs.talk,
    if_pos rfl, (AllBut.impress _ _).get e himpress, hgreet, get_ite, hmeet, ite_self, hg,
    get_converse_friendly hsettle he hs.warm, get_settle h, hdecays, if_pos rfl]
  rfl

/-! ### Many talks -/

/-- The affect after some time, as `feel` has it, with a power to find the share of the distance that is left. -/
def feelWith (power : Float32 → Float32 → Float32) (f : Affect) (a : Archetype) (s : Stimulus)
    (retention dt : Float32) : Affect := f.feelKeeping a s (power retention (duration dt)) (duration dt)

/-- The affect after some stimuli, that take the same time each. -/
def feelAll (power : Float32 → Float32 → Float32) (f : Affect) (a : Archetype) (retention dt : Float32)
    (ss : List Stimulus) : Affect := ss.foldl (fun f s => f.feelWith power a s retention dt) f

theorem feelAll_cons (power : Float32 → Float32 → Float32) (f : Affect) (a : Archetype) (retention dt : Float32)
    (s : Stimulus) (ss : List Stimulus) : f.feelAll power a retention dt (s :: ss) =
      (f.feelWith power a s retention dt).feelAll power a retention dt ss := by
  simp only [feelAll, List.foldl_cons]

theorem feelAll_pow (f : Affect) (a : Archetype) (retention dt : Float32) (ss : List Stimulus) :
    f.feelAll Single.pow a retention dt ss = ss.foldl (·.feel a · retention dt) f := by
  simp only [feelAll, feelWith, feel_eq]

theorem duration_of_pos (hfinite : dt.isFinite = true) (hpos : 0 < dt) : duration dt = dt := by
  rw [duration, if_pos hfinite, Single.larger, Single.isNaN_of_isFinite hfinite, if_neg Bool.false_ne_true,
    if_neg (by decide), if_pos hpos]

/-- A power of a number from 0 to 1 is one, too. -/
def KeepsFractions (power : Float32 → Float32 → Float32) : Prop :=
  ∀ x y, 0 ≤ x → x ≤ 1 → y.isFinite = true → 0 < y → 0 ≤ power x y ∧ power x y ≤ 1

theorem InRange.feelKeeping (h : f.InRange) (a : Archetype) (s : Stimulus) (kept dt : Float32) :
    (f.feelKeeping a s kept dt).InRange :=
  inRange_confine ((sameFrame_feelKeeping f a s kept dt).size.trans h.size)

/-- **Many friendly talks** move trust and affection by one map, as many times. -/
theorem get_feelAll (power : Float32 → Float32 → Float32) (h : f.InRange) (he : e ∈ bonds) {ss : List Stimulus}
    (hs : ∀ s ∈ ss, Friendly s) : (f.feelAll power a retention dt ss).get e =
      (e.moved (f.home e) (power retention (duration dt)) (warmth e * duration dt))^[ss.length] (f.get e) := by
  induction ss generalizing f with
  | nil => rfl
  | cons s ss ih =>
    have hhome : (f.feelWith power a s retention dt).home e = f.home e := by
      rw [home, home, feelWith, (sameFrame_feelKeeping f a s _ _).baseline]
    have hget : (f.feelWith power a s retention dt).get e =
        e.moved (f.home e) (power retention (duration dt)) (warmth e * duration dt) (f.get e) :=
      get_feelKeeping_friendly h.size he (hs s List.mem_cons_self)
    have hrange : (f.feelWith power a s retention dt).InRange := h.feelKeeping a s _ _
    rw [feelAll_cons, ih hrange fun t ht => hs t (List.mem_cons_of_mem s ht), hhome, hget, List.length_cons,
      Function.iterate_succ_apply]

theorem warmth_nudges (e : Emotion) (hfinite : dt.isFinite = true) (hpos : 0 < dt) :
    (warmth e * dt).isFinite = true ∧ 0 ≤ warmth e * dt := by
  have hwarmth : (warmth e).isFinite = true ∧ 0 ≤ warmth e ∧ warmth e ≤ 1 := by
    unfold warmth
    split <;> decide
  obtain ⟨hw, hlow, hhigh⟩ := hwarmth
  refine ⟨?_, Single.product_nonneg hw hfinite hlow (Single.le_of_lt hpos)⟩
  rw [Single.product_comm]
  exact Single.isFinite_mul_of_signed hfinite (Single.le_trans (by decide) hlow) hhigh

/-- **Friendly talks never lower trust or affection.** Let `f` be `Fresh`, `retention` from 0 to 1, `dt` finite and
positive, and all of `ss` and `s` be `Friendly`. If `power` maps fractions to fractions (`KeepsFractions`), then trust
and affection after `ss ++ [s]` are at least what they are after `ss`, and those at least what they are in
`initial a`. With `Single.pow` for `power`, `feelAll` is the fold of `feel`. -/
theorem Fresh.feelAll_trust_affection_mono {power : Float32 → Float32 → Float32} (hpower : KeepsFractions power)
    (hfresh : Fresh a f) (hlow : 0 ≤ retention) (hhigh : retention ≤ 1) (hfinite : dt.isFinite = true) (hpos : 0 < dt)
    {ss : List Stimulus} (hss : ∀ s ∈ ss, Friendly s) (hs : Friendly s) (he : e = .trust ∨ e = .affection) :
    (f.feelAll power a retention dt ss).get e ≤ (f.feelAll power a retention dt (ss ++ [s])).get e ∧
    (initial a).get e ≤ (f.feelAll power a retention dt ss).get e ∧
    f.feelAll Single.pow a retention dt ss = ss.foldl (·.feel a · retention dt) f := by
  have he : e ∈ bonds ∧ e.range = .unit := by
    rcases he with rfl | rfl <;> decide
  have hrange := inRange_baseline a (initial a) rfl
  have hhome : (initial a).home e = (initial a).get e := rfl
  obtain ⟨hk, hk'⟩ := hpower retention dt hlow hhigh hfinite hpos
  obtain ⟨hnudge, hnudge'⟩ := warmth_nudges e hfinite hpos
  have hsnoc : ∀ t ∈ ss ++ [s], Friendly t := by
    intro t ht
    rcases List.mem_append.mp ht with ht | ht
    · exact hss t ht
    · rwa [List.mem_singleton.mp ht]
  rw [hfresh.eq, get_feelAll power hrange he.1 hss, get_feelAll power hrange he.1 hsnoc, hhome,
    duration_of_pos hfinite hpos, List.length_append, List.length_singleton]
  exact ⟨Emotion.moved_rises he.2 (hrange.get e) ⟨hk, hk'⟩ hnudge hnudge' ss.length,
    Emotion.le_moved he.2 (hrange.get e) ⟨hk, hk'⟩ hnudge hnudge' ss.length,
    feelAll_pow (initial a) a retention dt ss⟩

/-- A rogue that was reset is talked to for a second, and for another one in the noise of combat; a number to the power
of one is that number. -/
theorem feelAll_trust_affection_mono_in_combat : ∃ t s, Friendly t ∧ Friendly s ∧ s.combat = 1 ∧
    KeepsFractions (fun x _ => x) ∧ Fresh .rogue (initial .rogue).reset ∧
    ((initial .rogue).reset.feelAll (fun x _ => x) .rogue 0.9 1 [t]).get .trust ≤
      ((initial .rogue).reset.feelAll (fun x _ => x) .rogue 0.9 1 ([t] ++ [s])).get .trust ∧
    (initial .rogue).get .trust ≤ ((initial .rogue).reset.feelAll (fun x _ => x) .rogue 0.9 1 [t]).get .trust := by
  have hpower : KeepsFractions fun x _ => x := fun x y hlow hhigh _ _ => ⟨hlow, hhigh⟩
  have hfresh : Fresh .rogue (initial .rogue).reset := .inr ⟨initial .rogue, rfl, rfl⟩
  have ht : Friendly { inConversation := true, tone := 0.9 } := ⟨rfl, by decide, by decide⟩
  have hs : Friendly { inConversation := true, tone := 0.6, threat := 0 / 0, combat := 1 } :=
    ⟨rfl, by decide, by decide⟩
  have hall : ∀ s ∈ [{ inConversation := true, tone := 0.9 }], Friendly s := by
    intro s hmem
    rw [List.mem_singleton.mp hmem]
    exact ht
  have hlow : (0 : Float32) ≤ 0.9 := by decide
  have hhigh : (0.9 : Float32) ≤ 1 := by decide
  have hfinite : (1 : Float32).isFinite = true := by decide
  have hpos : (0 : Float32) < 1 := by decide
  have htrust : Emotion.trust = .trust ∨ Emotion.trust = .affection := .inl rfl
  obtain ⟨hrises, hbaseline, -⟩ := hfresh.feelAll_trust_affection_mono hpower hlow hhigh hfinite hpos hall hs htrust
  exact ⟨_, _, ht, hs, rfl, hpower, hfresh, hrises, hbaseline⟩

end Affect

end NpcMind
