import NpcMind.Proofs.Finiteness
import NpcMind.Proofs.LambdaRange
import NpcMind.Proofs.Overflow
import NpcMind.Proofs.Steadiness

/-!
# What an agent can sense

Readings that are not finite count as zero, so everything that is fused into the channels is finite at first. Then
personality weighs three of the five regions. A factor up to one changes nothing about that, and no factor reaches two,
so numbers below the 127th power of two stay finite as well. But a factor above one makes the largest numbers infinite,
and every archetype has one.
-/

namespace NpcMind

open Single (finiteOrZero)

/-! ### Judgements -/

namespace Single

theorem isFinite_finiteOrZero (x : Float32) : (finiteOrZero x).isFinite = true := by
  unfold finiteOrZero
  split
  · next h => exact h
  · rfl

theorem isNaN_finiteOrZero (x : Float32) : (finiteOrZero x).isNaN = false :=
  isNaN_of_isFinite (isFinite_finiteOrZero x)

/-- The largest power of two. -/
def topPower : Float32 := Float32.ofBits 0x7F000000

theorem unit_mem {x : Float32} (hx : x.isNaN = false) : 0 ≤ unit x ∧ unit x ≤ 1 := clamp_mem (by decide) hx

end Single

namespace Senses

variable {x : Float32} {r : Region}

/-- The judgements of a tick are proportions, whatever is sensed. -/
theorem percept_mem (s : Senses) (e : Encounter) :
    (0 ≤ (s.percept e).combat ∧ (s.percept e).combat ≤ 1) ∧ 0 ≤ (s.percept e).threat ∧ (s.percept e).threat ≤ 1 :=
  ⟨Single.unit_mem (Single.isNaN_larger _ (Single.isNaN_finiteOrZero _)),
    Single.unit_mem (Single.isNaN_larger _ (Single.isNaN_finiteOrZero _))⟩

theorem isFinite_of_mem_unit (h : 0 ≤ x ∧ x ≤ 1) : x.isFinite = true := Single.isFinite_of_between h.1 h.2 rfl rfl

/-! ### Channels before they are weighed -/

/-- The channels of a region before personality weighs them. -/
def plain (s : Senses) (e : Encounter) (affect : Vec) : Region → Vec
  | .vision => s.visionChannels
  | .audio => s.audioChannels
  | .social => fillRegion .social (s.socialSignals e (s.percept e))
  | .internal => fillRegion .internal (s.needs ++ affect.extract 0 Emotion.basicCount)
  | .context => fillRegion .context (s.situation (s.percept e))

theorem mem_fillRegion {xs : Vec} (h : x ∈ fillRegion r xs) : x ∈ xs ∨ x = 0 := by
  rcases Array.mem_append.mp h with h | h
  · exact .inl h
  · exact .inr (Array.mem_replicate.mp h).2

theorem isFinite_flag (b : Bool) : (flag b).isFinite = true := by cases b <;> rfl

theorem isFinite_flag_mul (b : Bool) (hx : x.isFinite = true) : (flag b * x).isFinite = true := by
  rw [Single.product_comm]
  cases b
  · exact Single.isFinite_mul_of_signed hx (by decide) (by decide)
  · exact Single.isFinite_mul_of_signed hx (by decide) (by decide)

theorem isFinite_nearness (d : Float32) : (1 - finiteOrZero d).isFinite = true := by
  have hone : Single.Below 79 1 := .inr ⟨.positive, 8388608, -23, by decide, rfl, by decide⟩
  exact Single.isFinite_sub_of_below hone (Single.isFinite_finiteOrZero d)

theorem isFinite_socialSignals (s : Senses) (e : Encounter) (p : Percept) :
    ∀ x ∈ s.socialSignals e p, x.isFinite = true ∨ x = Single.tanh (finiteOrZero e.duration / 60) := by
  simp only [socialSignals, List.mem_toArray, List.forall_mem_cons, isFinite_flag, isFinite_flag_mul,
    isFinite_nearness, Single.isFinite_finiteOrZero, true_or, or_true, true_and, List.not_mem_nil, false_implies,
    implies_true]

theorem isFinite_needs (s : Senses) : ∀ x ∈ s.needs, x.isFinite = true := by
  simp only [needs, List.mem_toArray, List.forall_mem_cons, Single.isFinite_finiteOrZero, true_and, List.not_mem_nil,
    false_implies, implies_true]

theorem isFinite_situation (s : Senses) (e : Encounter) : ∀ x ∈ s.situation (s.percept e), x.isFinite = true := by
  obtain ⟨hcombat, hthreat⟩ := s.percept_mem e
  simp only [situation, List.mem_toArray, List.forall_mem_cons, Single.isFinite_finiteOrZero, true_and,
    isFinite_of_mem_unit hcombat, isFinite_of_mem_unit hthreat, List.not_mem_nil, false_implies, implies_true]

/-- What is fused is finite, but for the one number that is not merely looked at. -/
theorem isFinite_plain {s : Senses} {e : Encounter} {affect : Vec} (haffect : ∀ x ∈ affect, x.isFinite = true)
    (hx : x ∈ s.plain e affect r) : x.isFinite = true ∨ x = Single.tanh (finiteOrZero e.duration / 60) := by
  have hfill {r : Region} {xs : Vec} (h : x ∈ fillRegion r xs) (hxs : ∀ x ∈ xs, x.isFinite = true) :
      x.isFinite = true := by
    rcases mem_fillRegion h with h | rfl
    · exact hxs x h
    · rfl
  cases r with
  | vision | audio =>
    obtain ⟨y, -, rfl⟩ := Array.mem_map.mp hx
    exact .inl (Single.isFinite_finiteOrZero y)
  | social =>
    rcases mem_fillRegion hx with h | rfl
    · exact s.isFinite_socialSignals e _ x h
    · exact .inl rfl
  | internal =>
    refine .inl (hfill hx fun y hy => ?_)
    rcases Array.mem_append.mp hy with h | h
    · exact s.isFinite_needs y h
    · rw [← Array.mem_toList_iff, Array.toList_extract] at h
      exact haffect y (Array.mem_toList_iff.mp (List.mem_of_mem_drop (List.mem_of_mem_take h)))
  | context => exact .inl (hfill hx (s.isFinite_situation e))

end Senses

/-! ### What personality makes of them -/

namespace Archetype

/-- How strongly an archetype feels the channels of a region. -/
def gain (a : Archetype) : Region → Float32
  | .audio => 1 + 0.3 * a.baseline.getD Emotion.neuroticism.index 0
  | .social => 1 + 0.5 * a.baseline.getD Emotion.extraversion.index 0
  | .context => 1 + 0.4 * a.baseline.getD Emotion.openness.index 0
  | .vision | .internal => 1

/-- A channel as an archetype feels it. Sounds that are not loud stay as they are. -/
def weigh (a : Archetype) : Region → Float32 → Float32
  | .audio, x => if x > 0.5 then x * a.gain .audio else x
  | .social, x => x * a.gain .social
  | .context, x => x * a.gain .context
  | .vision, x | .internal, x => x

theorem gain_mem (a : Archetype) (r : Region) : -1 ≤ a.gain r ∧ a.gain r < 2 := by
  cases r <;> cases a <;> decide +kernel

theorem below_gain (a : Archetype) (r : Region) : Single.Below (-23) (a.gain r) := by
  have hlow : -2 < a.gain r := by cases r <;> cases a <;> decide +kernel
  exact Single.below_of_between (by decide) hlow (a.gain_mem r).2 rfl rfl

/-- Every archetype amplifies the company or the place. -/
theorem one_lt_gain (a : Archetype) : 1 < a.gain .social ∨ 1 < a.gain .context := by
  cases a <;> decide +kernel

theorem weigh_cases (a : Archetype) (r : Region) (x : Float32) : a.weigh r x = x ∨ a.weigh r x = x * a.gain r := by
  cases r with
  | vision | internal => exact .inl rfl
  | social | context => exact .inr rfl
  | audio =>
    by_cases hloud : x > 0.5
    · exact .inr (if_pos hloud)
    · exact .inl (if_neg hloud)

/-- **A channel stays finite** unless it is among the largest numbers and the archetype amplifies its region. -/
theorem isFinite_weigh {a : Archetype} {r : Region} {x : Float32} (hx : x.isFinite = true)
    (h : a.gain r ≤ 1 ∨ -Single.topPower < x ∧ x < Single.topPower) : (a.weigh r x).isFinite = true := by
  rcases a.weigh_cases r x with heq | heq <;> rw [heq]
  · exact hx
  rcases h with hle | ⟨hlo, hhi⟩
  · exact Single.isFinite_mul_of_signed hx (a.gain_mem r).1 hle
  · have hbelow : Single.Below 103 x := Single.below_of_between (by decide) hlo hhi rfl rfl
    exact Single.isFinite_mul_of_below hbelow (a.below_gain r)

theorem isFinite_weigh_largest {a : Archetype} {r : Region} (h : 1 < a.gain r) :
    (a.weigh r Single.largest).isFinite = false := by
  have hmul := Single.isFinite_largest_mul h (a.below_gain r)
  cases r with
  | vision | internal => exact absurd h (show ¬ (1 : Float32) < 1 by decide)
  | audio =>
    have hloud : Single.largest > 0.5 := by decide
    rw [weigh, if_pos hloud]
    exact hmul
  | social | context => exact hmul

end Archetype

namespace Senses

variable {x : Float32}

/-- The channels of a region. -/
def weighed (s : Senses) (e : Encounter) (a : Archetype) (affect : Vec) (r : Region) : Vec :=
  (s.plain e affect r).map (a.weigh r)

theorem channels_eq (s : Senses) (e : Encounter) (a : Archetype) (affect : Vec) :
    s.channels e a affect = s.weighed e a affect .vision ++ s.weighed e a affect .audio ++
      s.weighed e a affect .social ++ s.weighed e a affect .internal ++ s.weighed e a affect .context := by
  have hsame (r : Region) (h : a.weigh r = fun x => x) : s.weighed e a affect r = s.plain e affect r := by
    rw [weighed, h]
    exact Array.map_id' _
  rw [hsame .vision rfl, hsame .internal rfl]
  rfl

theorem size_plain (s : Senses) (e : Encounter) (affect : Vec) (r : Region) :
    (s.plain e affect r).size = r.stop - r.start := by
  cases r with
  | vision => exact s.size_visionChannels
  | audio => exact s.size_audioChannels
  | social => exact s.size_social e _
  | internal => exact s.size_internal affect
  | context => exact s.size_context _

theorem extract_of_split {α : Type} {whole : Array α} (xs ys zs : Array α) {i j : ℕ} (h : whole = xs ++ (ys ++ zs))
    (hi : xs.size = i) (hj : xs.size + ys.size = j) : whole.extract i j = ys := by
  subst h hi hj
  simp [Array.extract_append]

/-- The channels of a region are what is fused into it, weighed. -/
theorem slice_channels (s : Senses) (e : Encounter) (a : Archetype) (affect : Vec) (r : Region) :
    r.slice (s.channels e a affect) = s.weighed e a affect r := by
  have hsize (r : Region) : (s.weighed e a affect r).size = r.stop - r.start :=
    Array.size_map.trans (s.size_plain e affect r)
  have hvision : (s.weighed e a affect .vision).size = 256 := hsize .vision
  have haudio : (s.weighed e a affect .audio).size = 32 := hsize .audio
  have hsocial : (s.weighed e a affect .social).size = 32 := hsize .social
  have hinternal : (s.weighed e a affect .internal).size = 32 := hsize .internal
  have hcontext : (s.weighed e a affect .context).size = 160 := hsize .context
  rw [Region.slice, channels_eq]
  generalize s.weighed e a affect = w at hvision haudio hsocial hinternal hcontext ⊢
  cases r with
  | vision =>
    refine extract_of_split (i := 0) (j := 256) #[] _ (w .audio ++ w .social ++ w .internal ++ w .context) ?_ rfl ?_ <;>
      simp [hvision]
  | audio =>
    refine extract_of_split (i := 256) (j := 288) _ _ (w .social ++ w .internal ++ w .context) ?_ hvision ?_ <;>
      simp [hvision, haudio]
  | social =>
    refine extract_of_split (i := 288) (j := 320) (w .vision ++ w .audio) _ (w .internal ++ w .context) ?_ ?_ ?_ <;>
      simp [hvision, haudio, hsocial]
  | internal =>
    refine extract_of_split (i := 320) (j := 352) (w .vision ++ w .audio ++ w .social) _ (w .context) ?_ ?_ ?_ <;>
      simp [hvision, haudio, hsocial, hinternal]
  | context =>
    refine extract_of_split (i := 352) (j := 512) (w .vision ++ w .audio ++ w .social ++ w .internal) _ #[] ?_ ?_ ?_ <;>
      simp [hvision, haudio, hsocial, hinternal, hcontext]

theorem mem_channels {s : Senses} {e : Encounter} {a : Archetype} {affect : Vec} :
    x ∈ s.channels e a affect ↔ ∃ r, ∃ y ∈ s.plain e affect r, a.weigh r y = x := by
  rw [channels_eq]
  simp only [weighed, Array.mem_append, Array.mem_map]
  constructor
  · rintro ((((h | h) | h) | h) | h)
    · exact ⟨.vision, h⟩
    · exact ⟨.audio, h⟩
    · exact ⟨.social, h⟩
    · exact ⟨.internal, h⟩
    · exact ⟨.context, h⟩
  · rintro ⟨r, h⟩
    cases r with
    | vision => exact .inl (.inl (.inl (.inl h)))
    | audio => exact .inl (.inl (.inl (.inr h)))
    | social => exact .inl (.inl (.inr h))
    | internal => exact .inl (.inr h)
    | context => exact .inr h

/-- Readings of which every archetype feels one too strongly. -/
def glaring : Senses := { playerFacing := Single.largest, locationType := Single.largest }

theorem hasNonFinite_glaring : glaring.hasNonFinite = false := by
  have hreadings : (readings.all fun r => (r.get glaring).isFinite) = true := by decide
  have hvision : Vec.isFinite glaring.vision.toArray = true := Vec.isFinite_zeros _
  have haudio : Vec.isFinite glaring.audio.toArray = true := Vec.isFinite_zeros _
  rw [hasNonFinite, hreadings, hvision, haudio]
  rfl

theorem finiteOrZero_largest : finiteOrZero Single.largest = Single.largest := by decide

/-- The largest number does not get through where it is felt strongly. -/
theorem infinite_of_largest {s : Senses} {e : Encounter} {a : Archetype} {affect : Vec} {r : Region}
    (hgain : 1 < a.gain r) (h : Single.largest ∈ s.plain e affect r) :
    ∃ x ∈ s.channels e a affect, x.isFinite = false :=
  ⟨_, mem_channels.mpr ⟨r, Single.largest, h, rfl⟩, Archetype.isFinite_weigh_largest hgain⟩

theorem infinite_of_glaring (e : Encounter) (a : Archetype) (affect : Vec) :
    ∃ x ∈ glaring.channels e a affect, x.isFinite = false := by
  rcases a.one_lt_gain with hgain | hgain
  · refine infinite_of_largest hgain ?_
    simp [plain, fillRegion, socialSignals, glaring, finiteOrZero_largest]
  · refine infinite_of_largest hgain ?_
    simp [plain, fillRegion, situation, glaring, finiteOrZero_largest]

/-- **Channels are finite unless a reading is amplified past the largest number.** For all senses `s`, encounters `e`
and finite affect, `combat` and `threat` of `s.percept e` are from 0 to 1, and `s.channels e a affect` has
`channelCount` entries, those of a region `r` being `s.plain e affect r` weighed by `a.weigh r`. The plain ones are
finite, but for `Single.tanh` of the duration. `a.weigh r` keeps a finite number finite if `a.gain r ≤ 1` or the
number is below `Single.topPower`; so all channels are finite if those in regions with a larger gain are below it.
`Single.largest` becomes infinite in such a region, and the senses `glaring` show that every archetype has one. -/
theorem sensed_finite (s : Senses) (e : Encounter) (a : Archetype) (affect : Vec)
    (haffect : ∀ x ∈ affect, x.isFinite = true) :
    ((0 ≤ (s.percept e).combat ∧ (s.percept e).combat ≤ 1) ∧ 0 ≤ (s.percept e).threat ∧ (s.percept e).threat ≤ 1) ∧
    (s.channels e a affect).size = channelCount ∧
    (∀ r, r.slice (s.channels e a affect) = (s.plain e affect r).map (a.weigh r)) ∧
    (∀ r, ∀ x ∈ s.plain e affect r, x.isFinite = true ∨ x = Single.tanh (finiteOrZero e.duration / 60)) ∧
    (∀ r, ∀ x ∈ s.plain e affect r, x.isFinite = true →
      a.gain r ≤ 1 ∨ -Single.topPower < x ∧ x < Single.topPower → (a.weigh r x).isFinite = true) ∧
    ((Single.tanh (finiteOrZero e.duration / 60)).isFinite = true →
      (∀ r, 1 < a.gain r → ∀ x ∈ s.plain e affect r, -Single.topPower < x ∧ x < Single.topPower) →
      ∀ x ∈ s.channels e a affect, x.isFinite = true) ∧
    (∀ r, 1 < a.gain r → Single.largest ∈ s.plain e affect r → ∃ x ∈ s.channels e a affect, x.isFinite = false) ∧
    glaring.hasNonFinite = false ∧ ∃ x ∈ glaring.channels e a affect, x.isFinite = false := by
  refine ⟨s.percept_mem e, s.size_channels e a affect, s.slice_channels e a affect,
    fun r x hx => isFinite_plain haffect hx, fun r x _ hfinite h => Archetype.isFinite_weigh hfinite h,
    fun htanh hbelow x hx => ?_, fun r hgain h => infinite_of_largest hgain h, hasNonFinite_glaring,
    infinite_of_glaring e a affect⟩
  obtain ⟨r, y, hy, rfl⟩ := mem_channels.mp hx
  have hfinite : y.isFinite = true := by
    rcases isFinite_plain haffect hy with h | rfl
    · exact h
    · exact htanh
  refine Archetype.isFinite_weigh hfinite ?_
  by_cases hgain : 1 < a.gain r
  · exact .inr (hbelow r hgain y hy)
  · exact .inl (Single.le_of_not_lt (Single.ne_nan_of_lt (a.gain_mem r).2).1 rfl hgain)

/-- A merchant feels the stare of a player without bounds. -/
theorem sensed_finite_not_glaring :
    (∀ x ∈ Archetype.merchant.baseline, x.isFinite = true) ∧ 1 < Archetype.merchant.gain .social ∧
      ∃ x ∈ glaring.channels .idle .merchant Archetype.merchant.baseline, x.isFinite = false := by
  have haffect : ∀ x ∈ Archetype.merchant.baseline, x.isFinite = true := by decide
  obtain ⟨-, -, -, -, -, -, hlargest, -, -⟩ := sensed_finite glaring .idle .merchant _ haffect
  have hgain : 1 < Archetype.merchant.gain .social := by decide
  refine ⟨haffect, hgain, hlargest .social hgain ?_⟩
  simp [plain, fillRegion, socialSignals, glaring, finiteOrZero_largest]

end Senses

end NpcMind
