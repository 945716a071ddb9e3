import NpcMind.Memory.Store
import NpcMind.Proofs.Fractions
import NpcMind.Proofs.LambdaRange

/-!
# The weights of all slots

Every occupied slot gets a weight by the exponential of its score, taken relative to the highest one. A free slot is
marked by negative infinity in place of a score and gets none. Where all scores are numbers below infinity, this is a
weighting: each weight is a number from 0 to 1. What is looked for as the highest score passes over what is no number,
as a read does, but the sum of the exponentials does not. So one score that is no number, or one that is infinite, next
to a score of any other slot, leaves no weight that is a number, not even for free slots.
-/

namespace NpcMind

open Outcome
open Single (Fraction infinity)

namespace Single

open Float.Model Float.Model.UnpackedFloat

variable {x y : Float32} {l : List Float32}

/-! ### Numbers and infinities -/

theorem neg_infinity_le (h : x.isNaN = false) : -infinity ≤ x := by
  rw [le_iff_height rfl h, show height (-infinity) = -2139095040 from rfl]
  rcases height_cases h with ⟨-, h⟩ | ⟨-, h⟩ | ⟨-, h, -⟩ <;> omega

theorem neg_infinity_lt_iff : -infinity < x ↔ x.isNaN = false ∧ (x == -infinity) = false := by
  rw [← Bool.not_eq_true (_ == _), beq_iff_le, not_and]
  constructor
  · intro h
    exact ⟨(ne_nan_of_lt h).2, fun hle => absurd h (not_lt_of_le hle)⟩
  · rintro ⟨hx, hne⟩
    by_contra h
    exact hne (le_of_not_lt hx rfl h) (neg_infinity_le hx)

theorem unpack_of_not_lt (hx : x.isNaN = false) (h : ¬ x < infinity) : x.toModel.unpack = .infinity .positive := by
  rw [lt_iff_height hx rfl, show height infinity = 2139095040 from rfl] at h
  rcases height_cases hx with ⟨hunpack, -⟩ | ⟨-, hheight⟩ | ⟨-, -, hheight⟩
  · exact hunpack
  · omega
  · omega

theorem isFinite_of_lt (hlow : -infinity < x) (hhigh : x < infinity) : x.isFinite = true := by
  have hx := (ne_nan_of_lt hhigh).1
  rw [lt_iff_height rfl hx, show height (-infinity) = -2139095040 from rfl] at hlow
  rw [lt_iff_height hx rfl, show height infinity = 2139095040 from rfl] at hhigh
  rcases height_cases hx with ⟨-, hheight⟩ | ⟨-, hheight⟩ | ⟨hfinite, -⟩
  · omega
  · omega
  · exact hfinite

/-- One summand that is no number leaves a sum that is none. -/
theorem isNaN_foldl_add (h : x.isNaN = true ∨ ∃ y ∈ l, y.isNaN = true) : (l.foldl (· + ·) x).isNaN = true := by
  induction l generalizing x with
  | nil =>
    rcases h with hx | ⟨y, hy, -⟩
    · exact hx
    · simp at hy
  | cons y l ih =>
    apply ih
    rcases h with hx | ⟨z, hz, hnan⟩
    · exact .inl (isNaN_nan_add hx y)
    · rcases List.mem_cons.mp hz with rfl | hz
      · exact .inl (isNaN_add_nan x hnan)
      · exact .inr ⟨z, hz, hnan⟩

/-! ### The largest of several -/

theorem foldl_larger (hx : x.isNaN = false) : (l.foldl larger x).isNaN = false ∧ x ≤ l.foldl larger x ∧
    (∀ y ∈ l, y.isNaN = false → y ≤ l.foldl larger x) ∧ (l.foldl larger x = x ∨ l.foldl larger x ∈ l) := by
  induction l generalizing x with
  | nil => exact ⟨hx, le_refl hx, by simp, .inl rfl⟩
  | cons y l ih =>
    obtain ⟨hnan, hle, hle', hone⟩ := larger_spec hx y
    obtain ⟨hnan', hrest, hall, hmem⟩ := ih hnan
    refine ⟨hnan', le_trans hle hrest, ?_, ?_⟩
    · intro z hz hnumber
      rcases List.mem_cons.mp hz with rfl | hz
      · exact le_trans (hle' hnumber) hrest
      · exact hall z hz hnumber
    · rw [List.foldl_cons, List.mem_cons]
      rcases hmem with heq | hmem
      · rw [heq]
        exact hone.imp_right .inl
      · exact .inr (.inr hmem)

end Single

/-- **The largest entry** is one of them, if any is above negative infinity, and no number among them is larger. -/
theorem Kernel.maximum_spec (xs : Vec) : (maximum xs).isNaN = false ∧
    (∀ x ∈ xs, x.isNaN = false → x ≤ maximum xs) ∧ (maximum xs = -infinity ∨ maximum xs ∈ xs) := by
  obtain ⟨hnan, -, hall, hmem⟩ := Single.foldl_larger (x := -infinity) (l := xs.toList) rfl
  rw [Array.foldl_toList] at hnan hall hmem
  simp only [Array.mem_toList_iff] at hall hmem
  exact ⟨hnan, hall, hmem⟩

/-! ### Shares -/

/-- What weights need of an exponential: what is no number stays so, what is not positive becomes a number from 0 to 1,
and zero becomes one. -/
structure Single.Exponential (f : Float32 → Float32) : Prop where
  nan : ∀ x, x.isNaN = true → (f x).isNaN = true
  fraction : ∀ x, x ≤ 0 → Fraction (f x)
  one : ∀ x, (x == 0) = true → f x = 1

namespace Memory

variable {f : Float32 → Float32} {xs : Vec} {size : ℕ}

/-- The exponentials of exponents relative to the largest one; zero for negative infinity. -/
def powers (f : Float32 → Float32) (xs : Vec) : Vec :=
  xs.map fun x => if x == -infinity then 0 else f (x - Kernel.maximum xs)

/-- The shares of exponents, by their exponentials; all zero if no exponent is above negative infinity. -/
def shares (f : Float32 → Float32) (size : ℕ) (xs : Vec) : Vec :=
  if Kernel.maximum xs == -infinity then Vec.zeros size
  else (powers f xs).map (· / Vec.total (powers f xs))

theorem shares_eq_zeros (h : ∀ x ∈ xs, ¬ -infinity < x) : shares f size xs = Vec.zeros size := by
  obtain ⟨hnan, -, hmem⟩ := Kernel.maximum_spec xs
  have hnone : ¬ -infinity < Kernel.maximum xs := by
    rcases hmem with heq | hmem
    · rw [heq]
      decide
    · exact h _ hmem
  have htop : (Kernel.maximum xs == -infinity) = true := by
    by_contra hne
    exact hnone (Single.neg_infinity_lt_iff.mpr ⟨hnan, Bool.eq_false_iff.mpr hne⟩)
  rw [shares, if_pos htop]

section Powers

variable (hf : Single.Exponential f) (hbelow : ∀ x ∈ xs, x < infinity)
  (htop : (Kernel.maximum xs == -infinity) = false)

include hbelow htop

/-- Below infinity, the largest entry is finite. -/
theorem maximum_mem : Kernel.maximum xs ∈ xs ∧ (Kernel.maximum xs).isFinite = true := by
  obtain ⟨hnan, -, hmem⟩ := Kernel.maximum_spec xs
  have hmem : Kernel.maximum xs ∈ xs := by
    rcases hmem with heq | hmem
    · rw [heq] at htop
      exact absurd htop (by decide)
    · exact hmem
  exact ⟨hmem, Single.isFinite_of_lt (Single.neg_infinity_lt_iff.mpr ⟨hnan, htop⟩) (hbelow _ hmem)⟩

include hf

theorem fraction_powers : ∀ p ∈ powers f xs, Fraction p := by
  obtain ⟨-, hfinite⟩ := maximum_mem hbelow htop
  obtain ⟨-, hall, -⟩ := Kernel.maximum_spec xs
  intro p hp
  obtain ⟨x, hx, rfl⟩ := Array.mem_map.mp hp
  split
  · exact Single.fraction_zero
  · next hne =>
    have hnan := (Single.ne_nan_of_lt (hbelow x hx)).1
    have hxfinite : x.isFinite = true := Single.isFinite_of_lt
      (Single.neg_infinity_lt_iff.mpr ⟨hnan, Bool.eq_false_iff.mpr hne⟩) (hbelow x hx)
    have hself := (Single.beq_iff_le.mp (Single.beq_difference_self hfinite)).1
    exact hf.fraction _ (Single.le_trans (Single.difference_mono hxfinite hfinite hfinite (hall x hx hnan)) hself)

/-- The largest exponent has the exponential one. -/
theorem one_mem_powers : 1 ∈ powers f xs := by
  obtain ⟨hmem, hfinite⟩ := maximum_mem hbelow htop
  refine Array.mem_map.mpr ⟨_, hmem, ?_⟩
  rw [if_neg (Bool.eq_false_iff.mp htop)]
  exact hf.one _ (Single.beq_difference_self hfinite)

/-- **The sum of the exponentials** is finite, and not less than each of them nor than one. -/
theorem total_powers : (Vec.total (powers f xs)).isFinite = true ∧ 0 < Vec.total (powers f xs) ∧
    ∀ p ∈ powers f xs, p ≤ Vec.total (powers f xs) := by
  have hfractions : ∀ p ∈ (powers f xs).toList, Fraction p := by
    simp only [Array.mem_toList_iff]
    exact fraction_powers hf hbelow htop
  obtain ⟨hlow, hall, hhigh⟩ := Single.foldl_fractions hfractions (x := 0) (by decide) (by decide)
  rw [Array.foldl_toList] at hlow hall hhigh
  simp only [Array.mem_toList_iff] at hall
  exact ⟨Single.isFinite_of_between hlow hhigh rfl rfl,
    Single.lt_of_lt_of_le (by decide) (hall 1 (one_mem_powers hf hbelow htop)), hall⟩

end Powers

/-- **Below infinity shares are numbers from 0 to 1**, and zero for negative infinity. -/
theorem shares_of_below (hf : Single.Exponential f) (hbelow : ∀ x ∈ xs, x < infinity) {i : ℕ} {x w : Float32}
    (hx : xs[i]? = some x) (hw : (shares f xs.size xs)[i]? = some w) :
    Fraction w ∧ ((x == -infinity) = true → w = 0) := by
  cases htop : Kernel.maximum xs == -infinity with
  | true =>
    rw [shares, if_pos htop] at hw
    obtain rfl : w = 0 := (Array.mem_replicate.mp (Array.mem_of_getElem? hw)).2
    exact ⟨Single.fraction_zero, fun _ => rfl⟩
  | false =>
    obtain ⟨hfinite, hpos, hle⟩ := total_powers hf hbelow htop
    rw [shares, if_neg (Bool.eq_false_iff.mp htop), Array.getElem?_map] at hw
    obtain ⟨p, hp, rfl⟩ := Option.map_eq_some_iff.mp hw
    have hmem := Array.mem_of_getElem? hp
    refine ⟨Single.fraction_quotient (fraction_powers hf hbelow htop p hmem).nonneg (hle p hmem) hpos hfinite, ?_⟩
    intro hvacant
    rw [powers, Array.getElem?_map, hx, Option.map_some, if_pos hvacant] at hp
    cases hp
    obtain ⟨e, hsized⟩ := Single.exists_sized hpos hfinite
    exact hsized.zero_div

/-- **Otherwise no share is a number**, as soon as one exponent is above negative infinity. -/
theorem isNaN_shares (hf : Single.Exponential f) (hnot : ∃ x ∈ xs, ¬ x < infinity) (habove : ∃ x ∈ xs, -infinity < x) :
    ∀ w ∈ shares f size xs, w.isNaN = true := by
  obtain ⟨hnan, hall, -⟩ := Kernel.maximum_spec xs
  have htop : (Kernel.maximum xs == -infinity) = false := by
    obtain ⟨x, hx, hlt⟩ := habove
    exact (Single.neg_infinity_lt_iff.mp
      (Single.lt_of_lt_of_le hlt (hall x hx (Single.ne_nan_of_lt hlt).2))).2
  have hpower : ∃ p ∈ (powers f xs).toList, p.isNaN = true := by
    obtain ⟨x, hx, hnot⟩ := hnot
    have hdifference : (x - Kernel.maximum xs).isNaN = true := by
      cases hxnan : x.isNaN with
      | true => exact Single.isNaN_nan_sub hxnan _
      | false =>
        -- An infinite exponent is the largest one, and taken relative to itself.
        have hxtop : ¬ Kernel.maximum xs < infinity :=
          fun hlt => hnot (Single.lt_of_le_of_lt (hall x hx hxnan) hlt)
        exact Single.isNaN_sub_infinity (Single.unpack_of_not_lt hxnan hnot) (Single.unpack_of_not_lt hnan hxtop)
    have hne : ¬ (x == -infinity) = true := by
      intro hvacant
      have hle := (Single.beq_iff_le.mp hvacant).1
      exact hnot (Single.lt_of_le_of_lt hle (by decide))
    refine ⟨_, Array.mem_toList_iff.mpr (Array.mem_map_of_mem hx), ?_⟩
    rw [if_neg hne]
    exact hf.nan _ hdifference
  have htotal : (Vec.total (powers f xs)).isNaN = true := by
    rw [Vec.total, ← Array.foldl_toList]
    exact Single.isNaN_foldl_add (.inr hpower)
  intro w hw
  rw [shares, if_neg (Bool.eq_false_iff.mp htop)] at hw
  obtain ⟨p, -, rfl⟩ := Array.mem_map.mp hw
  exact Single.isNaN_div_nan p htotal

/-! ### Weights -/

variable {m : Memory} {b : Backend} {query : Vec}

/-- What a slot scores, as it enters into its weight. -/
def sharpened (m : Memory) (b : Backend) (query : Vec) (t : Trace) : Float32 :=
  m.config.sharpness * m.config.metric.score b query t.content

/-- The exponents of all slots; negative infinity marks the free ones. -/
def exponents (m : Memory) (b : Backend) (query : Vec) : Vec :=
  m.slots.map fun t => if t.occupied then m.sharpened b query t else -infinity

/-- The weights of all slots with that function for an exponential. -/
def addressingWith (f : Float32 → Float32) (m : Memory) (b : Backend) (query : Vec) (size : ℕ) : Outcome Vec := do
  expectSize "memory query" m.width query.size
  expectSize "memory weighting" m.capacity size
  m.checkContents
  return shares f size (m.exponents b query)

theorem addressingWith_exp (m : Memory) (b : Backend) (query : Vec) (size : ℕ) :
    m.addressingWith Single.exp b query size = m.addressing b query size := by
  simp only [addressingWith, shares, apply_ite pure]
  rfl

/-- The scores against a query make a weighting: none is infinite and all are numbers, or none is above negative
infinity. -/
def Weighable (m : Memory) (b : Backend) (query : Vec) : Prop :=
  (∀ t ∈ m.slots, t.occupied = true → m.sharpened b query t < infinity) ∨
  ∀ t ∈ m.slots, t.occupied = true → ¬ -infinity < m.sharpened b query t

theorem isNaN_sharpened (hpos : 0 < m.config.sharpness) (hfinite : m.config.sharpness.isFinite = true) (t : Trace) :
    (m.sharpened b query t).isNaN = (m.config.metric.score b query t.content).isNaN := by
  unfold sharpened
  cases hscore : (m.config.metric.score b query t.content).isNaN with
  | true => exact Single.isNaN_mul_nan _ hscore
  | false =>
    have hne : (m.config.sharpness == 0) = false := by
      rw [← Bool.not_eq_true, Single.beq_iff_le]
      exact fun hle => Single.not_lt_of_le hle.1 hpos
    rw [Single.product_comm]
    exact Single.isNaN_mul_finite hscore hfinite hne

theorem mem_exponents {x : Float32} : x ∈ m.exponents b query ↔
    ∃ t ∈ m.slots, (if t.occupied then m.sharpened b query t else -infinity) = x := Array.mem_map

theorem size_shares (f : Float32 → Float32) (b : Backend) (query : Vec) :
    (shares f m.capacity (m.exponents b query)).size = m.capacity := by
  unfold shares
  split
  · exact Array.size_replicate
  · simp [powers, exponents, capacity]

theorem shares_of_weighable (hf : Single.Exponential f) (h : m.Weighable b query) {i : ℕ} {t : Trace} {w : Float32}
    (ht : m.slots[i]? = some t) (hw : (shares f m.capacity (m.exponents b query))[i]? = some w) :
    Fraction w ∧ (t.occupied = false ∨ (m.sharpened b query t).isNaN = true → w = 0) := by
  have hx : (m.exponents b query)[i]? = some (if t.occupied then m.sharpened b query t else -infinity) := by
    rw [exponents, Array.getElem?_map, ht]
    rfl
  have hsize : (m.exponents b query).size = m.capacity := Array.size_map
  rcases h with hbelow | hnone
  · have hbelow' : ∀ x ∈ m.exponents b query, x < infinity := by
      intro x hx
      obtain ⟨u, hu, rfl⟩ := mem_exponents.mp hx
      split
      · next ho => exact hbelow u hu ho
      · decide
    rw [← hsize] at hw
    obtain ⟨hfraction, hzero⟩ := shares_of_below hf hbelow' hx hw
    refine ⟨hfraction, ?_⟩
    intro hfree
    cases ho : t.occupied with
    | false =>
      rw [ho, if_neg Bool.false_ne_true] at hzero
      exact hzero (by decide)
    | true =>
      have hnan := (Single.ne_nan_of_lt (hbelow t (Array.mem_of_getElem? ht) ho)).1
      rw [ho, hnan] at hfree
      simp at hfree
  · have hnone' : ∀ x ∈ m.exponents b query, ¬ -infinity < x := by
      intro x hx
      obtain ⟨u, hu, rfl⟩ := mem_exponents.mp hx
      split
      · next ho => exact hnone u hu ho
      · decide
    rw [shares_eq_zeros hnone'] at hw
    obtain rfl : w = 0 := (Array.mem_replicate.mp (Array.mem_of_getElem? hw)).2
    exact ⟨Single.fraction_zero, fun _ => rfl⟩

theorem isNaN_of_not_weighable (hf : Single.Exponential f) (h : ¬ m.Weighable b query) :
    ∀ w ∈ shares f size (m.exponents b query), w.isNaN = true := by
  obtain ⟨hbelow, hnone⟩ := not_or.mp h
  push Not at hbelow hnone
  obtain ⟨t, ht, ho, hnot⟩ := hbelow
  obtain ⟨u, hu, ho', habove⟩ := hnone
  refine isNaN_shares hf ⟨_, mem_exponents.mpr ⟨t, ht, rfl⟩, ?_⟩ ⟨_, mem_exponents.mpr ⟨u, hu, rfl⟩, ?_⟩
  · rw [ho]
    exact hnot
  · rw [ho']
    exact habove

/-- **Weights are valid exactly if the scores are `Weighable`.** For `f` with the laws of `Single.Exponential`,
sharpness positive and finite, and a query of the right size, `addressingWith f` gives one weight for each slot, and
is `addressing` for `f = Single.exp`. All weights are numbers from 0 to 1 if and only if `m.Weighable b query`; then a
slot that is free or whose score is NaN has the weight 0. Otherwise every weight is NaN. -/
theorem weights_valid_iff (hf : Single.Exponential f) (hpos : 0 < m.config.sharpness)
    (hfinite : m.config.sharpness.isFinite = true) (hb : m.isBacked = true ∨ m.isEmpty = true) (b : Backend)
    (hq : query.size = m.width) :
    ∃ weights, m.addressingWith f b query m.capacity = .ok weights ∧
      (f = Single.exp → m.addressing b query m.capacity = .ok weights) ∧ weights.size = m.capacity ∧
      ((∀ w ∈ weights, w.isNaN = false ∧ 0 ≤ w ∧ w ≤ 1) ↔ m.Weighable b query) ∧
      (m.Weighable b query → ∀ (i : ℕ) (t : Trace), m.slots[i]? = some t →
        t.occupied = false ∨ (m.config.metric.score b query t.content).isNaN = true → weights[i]? = some 0) ∧
      (¬ m.Weighable b query → ∀ w ∈ weights, w.isNaN = true) := by
  have hok : m.addressingWith f b query m.capacity = .ok (shares f m.capacity (m.exponents b query)) := by
    simp only [addressingWith, hq, expectSize_ok, checkContents_ok hb, bind, Except.bind]
    rfl
  have hsize : (shares f m.capacity (m.exponents b query)).size = m.capacity := size_shares f b query
  refine ⟨_, hok, ?_, hsize, ⟨?_, ?_⟩, ?_, isNaN_of_not_weighable hf⟩
  · rintro rfl
    rw [← addressingWith_exp]
    exact hok
  · intro hvalid
    by_contra hnot
    obtain ⟨t, ht⟩ : ∃ t, t ∈ m.slots := by
      by_contra hempty
      exact hnot (.inl fun t ht => absurd ⟨t, ht⟩ hempty)
    obtain ⟨i, hi⟩ := Array.getElem?_of_mem ht
    have hlt : i < (shares f m.capacity (m.exponents b query)).size := by
      rw [hsize]
      exact (Array.getElem?_eq_some_iff.mp hi).1
    have hmem := Array.getElem_mem hlt
    have hnan := isNaN_of_not_weighable hf hnot _ hmem
    rw [(hvalid _ hmem).1] at hnan
    cases hnan
  · intro h w hw
    obtain ⟨i, hi⟩ := Array.getElem?_of_mem hw
    have hlt : i < m.slots.size := by
      rw [← capacity, ← hsize]
      exact (Array.getElem?_eq_some_iff.mp hi).1
    have hfraction := (shares_of_weighable hf h (Array.getElem?_eq_getElem hlt) hi).1
    exact ⟨hfraction.isNaN, hfraction.nonneg, hfraction.le_one⟩
  · intro h i t ht hfree
    have hlt : i < (shares f m.capacity (m.exponents b query)).size := by
      rw [hsize]
      exact (Array.getElem?_eq_some_iff.mp ht).1
    have hw := Array.getElem?_eq_getElem hlt
    rw [← isNaN_sharpened hpos hfinite] at hfree
    rw [hw, (shares_of_weighable hf h ht hw).2 hfree]

/-- A rough exponential, which is right for zero, for what is far below it, and for what is no number. -/
def steep (x : Float32) : Float32 := if x.isNaN then x else if x < 0 then 0 else 1

theorem exponential_steep : Single.Exponential steep where
  nan := by
    intro x hx
    rw [steep, if_pos hx]
    exact hx
  fraction := by
    intro x hx
    rw [steep, (Single.ne_nan_of_le hx).1, if_neg Bool.false_ne_true]
    split
    · exact Single.fraction_zero
    · exact Single.fraction_one
  one := by
    intro x hx
    obtain ⟨hle, hge⟩ := Single.beq_iff_le.mp hx
    rw [steep, (Single.ne_nan_of_le hle).1, if_neg Bool.false_ne_true, if_neg (Single.not_lt_of_le hge)]

/-- A memory of three slots, with large numbers in the first and nothing in the last. -/
def overwhelmed : Memory where
  config := { slots := 3, width := 2, readHeads := 1, metric := .dot }
  slots := #[⟨#[1e30, 1e30], 0.95, 1, true⟩, ⟨#[1, 0], 1, 1, true⟩, { content := #[0, 0] }]
  links := ⟨#[some 1, none, none], #[none, some 0, none], some 1⟩
  writes := 2

/-- All that is held is finite. One query makes a weighting; against another, which is as finite, the score of the first
slot is no number. A read passes over it and finds the second slot, but no slot has a weight that is a number. -/
theorem weights_valid_iff_not_overwhelmed : Single.Exponential steep ∧ 0 < overwhelmed.config.sharpness ∧
    overwhelmed.config.sharpness.isFinite = true ∧ (∀ t ∈ overwhelmed.slots, Vec.isFinite t.content = true) ∧
    (∃ weights, overwhelmed.addressingWith steep .scalar #[1, 0] 3 = .ok weights ∧
      ∀ w ∈ weights, w.isNaN = false ∧ 0 ≤ w ∧ w ≤ 1) ∧
    (overwhelmed.read .scalar #[1e30, -1e30] 2).map Recall.slot = .ok (some 1) ∧
    ∃ weights, overwhelmed.addressingWith steep .scalar #[1e30, -1e30] 3 = .ok weights ∧
      ∀ w ∈ weights, w.isNaN = true := by
  have hpos : 0 < overwhelmed.config.sharpness := by decide
  have hfinite : overwhelmed.config.sharpness.isFinite = true := by decide
  have hbacked : overwhelmed.isBacked = true := by decide
  have hweighable : overwhelmed.Weighable .scalar #[1, 0] := .inl (by decide +kernel)
  have hnot : ¬ overwhelmed.Weighable .scalar #[1e30, -1e30] := by
    rintro (hbelow | hnone)
    · exact absurd hbelow (by decide +kernel)
    · exact absurd hnone (by decide +kernel)
  obtain ⟨weights, hok, -, -, hiff, -, -⟩ := weights_valid_iff exponential_steep hpos hfinite (.inl hbacked) .scalar
    (rfl : (#[1, 0] : Vec).size = overwhelmed.width)
  obtain ⟨weights', hok', -, -, -, -, hnan⟩ := weights_valid_iff exponential_steep hpos hfinite (.inl hbacked) .scalar
    (rfl : (#[1e30, -1e30] : Vec).size = overwhelmed.width)
  exact ⟨exponential_steep, hpos, hfinite, by decide +kernel, ⟨weights, hok, hiff.mpr hweighable⟩, by decide +kernel,
    weights', hok', hnan hnot⟩

end Memory

end NpcMind
