import Mathlib
import NpcMind.Proofs.Impressions
import NpcMind.Proofs.Rounding

/-!
# Numbers from 0 to 1

Levels, usages, importances and weights are numbers from 0 to 1. Rounding does not lead out of that interval: a product
of two such numbers lies in it, and so does the quotient of a number by one that is not less. A sum of such numbers is
at least each of them. However many there are, it does not pass `2 ^ 24`, where adding one more makes no difference.
-/

namespace NpcMind.Single

open Float.Model Float.Model.UnpackedFloat

variable {x y : Float32} {l : List Float32} {m n : ℕ} {e f : ℤ}

/-- A number from 0 to 1. -/
structure Fraction (x : Float32) : Prop where
  nonneg : 0 ≤ x
  le_one : x ≤ 1

namespace Fraction

theorem below (h : Fraction x) : Below (-23) x := below_of_signed (le_trans (by decide) h.nonneg) h.le_one

theorem isFinite (h : Fraction x) : x.isFinite = true := h.below.isFinite

theorem isNaN (h : Fraction x) : x.isNaN = false := isNaN_of_isFinite h.isFinite

/-- **A product of fractions is one.** -/
theorem mul (hx : Fraction x) (hy : Fraction y) : Fraction (x * y) where
  nonneg := product_nonneg hx.isFinite hy.isFinite hx.nonneg hy.nonneg
  le_one := by
    have hfirst := product_mono hx.isFinite rfl hy.isFinite hx.le_one hy.nonneg
    have hsecond := product_mono hy.isFinite rfl rfl hy.le_one (show (0 : Float32) ≤ 1 by decide)
    rw [product_comm y 1] at hsecond
    exact le_trans hfirst (le_trans hsecond (by decide))

theorem larger (hx : Fraction x) (hy : Fraction y) : Fraction (larger x y) := by
  obtain ⟨-, -, -, heq | heq⟩ := larger_spec hx.isNaN y
  · exact heq.symm ▸ hx
  · exact heq.symm ▸ hy

end Fraction

theorem fraction_zero : Fraction 0 := ⟨by decide, by decide⟩

theorem fraction_one : Fraction 1 := ⟨by decide, by decide⟩

theorem fraction_unit (h : x.isNaN = false) : Fraction (unit x) :=
  ⟨(clamp_mem (by decide) h).1, (clamp_mem (by decide) h).2⟩

/-- What is not negative, be it a number or not, is a fraction once it is cut off at one. -/
theorem fraction_smaller (h : ¬ x < 0) : Fraction (smaller x 1) := by
  unfold smaller
  split
  · exact fraction_one
  · next hx =>
    have hx := Bool.eq_false_iff.mpr hx
    rw [if_neg (by decide)]
    split
    · next hlt => exact ⟨le_of_not_lt rfl hx h, le_of_lt hlt⟩
    · exact fraction_one

/-! ### Quotients -/

theorem log2_mul_pow (hm : 0 < m) (k : ℕ) : (m * 2 ^ k).log2 = m.log2 + k := by
  rw [← Nat.shiftLeft_eq, log2_shiftLeft hm.ne']

/-- **What is less than one, or is one exactly,** is at most one after rounding. -/
theorem reach_round_le {q j : ℕ} {a : Accuracy} (hready : -(j : ℤ) ≤ target q (-j))
    (h : q < 2 ^ j ∨ q = 2 ^ j ∧ a = .exact) :
    reach (Float32.Model.pack (roundWithAccuracy .binary32 .positive q (-j) a)).unpack ≤ 1065353216 := by
  have hdigits := (rounded_bounds a hready).1
  rw [reach_round .positive a hready]
  rcases h with hlt | ⟨hone, rfl⟩
  · -- There are no digits in front of the point, and rounding gives one at most.
    have hlog : q = 0 ∨ q.log2 < j := (Nat.eq_zero_or_pos q).imp_right fun hpos => (Nat.log2_lt hpos.ne').mpr hlt
    unfold target at *
    rcases hlog with rfl | hlog
    · rw [Nat.log2_zero] at *
      omega
    · omega
  · have htarget : target q (-j) = -23 := by
      rw [target, hone, Nat.log2_two_pow]
      omega
    have hsplit : q = 2 ^ 23 * 2 ^ (-23 - -(j : ℤ)).toNat := by
      rw [htarget] at hready
      rw [hone, ← pow_add]
      congr 1
      omega
    have hnearest : (shiftToTargetExponent .binary32 q (-j) .exact).1.roundedMantissa =
        nearest q (target q (-j) - -(j : ℤ)).toNat := rfl
    rw [hnearest, htarget, hsplit, nearest_mul_pow]
    decide

/-- **A quotient by a number that is not less** does not reach past one. -/
theorem reach_div_le (hm : 0 < m) (hn : 0 < n) (he : -149 ≤ e) (hf : -149 ≤ f)
    (h : m * 2 ^ (e + 149).toNat ≤ n * 2 ^ (f + 149).toNat) :
    reach (Float32.Model.pack (UnpackedFloat.div .binary32 (.finite .positive m e hm)
      (.finite .positive n f hn))).unpack ≤ 1065353216 := by
  have hlogs := log2_mono h
  rw [log2_mul_pow hm, log2_mul_pow hn] at hlogs
  obtain ⟨t, ht⟩ : ∃ t, t = min (e - f) (Format.targetExponent .binary32 (totalExponent m e - totalExponent n f)) :=
    ⟨_, rfl⟩
  have htarget : t ≤ e - f ∧ t ≤ max (m.log2 + 1 + e - (n.log2 + 1 + f) - 24) (-149) := by
    rw [ht]
    exact ⟨min_le_left _ _, min_le_right _ _⟩
  obtain ⟨j, rfl⟩ : ∃ j : ℕ, t = -(j : ℤ) := ⟨(-t).toNat, by omega⟩
  obtain ⟨k, hk⟩ : ∃ k, k = (e - f - -(j : ℤ)).toNat := ⟨_, rfl⟩
  have hdiv : UnpackedFloat.div .binary32 (.finite .positive m e hm) (.finite .positive n f hn) =
      roundWithAccuracy .binary32 .positive (m <<< k / n) (-j) (accuracyOfFraction (m <<< k % n) n) := by
    rw [hk, ht]
    rfl
  -- With the exponent `-j` the divisor has `n * 2 ^ j` for one.
  have hshift : m <<< k ≤ n * 2 ^ j := by
    have hpow : 2 ^ (e + 149).toNat * 2 ^ j = 2 ^ k * 2 ^ (f + 149).toNat := by
      rw [← pow_add, ← pow_add]
      congr 1
      omega
    refine Nat.le_of_mul_le_mul_right (c := 2 ^ (f + 149).toNat) ?_ (Nat.two_pow_pos _)
    calc m <<< k * 2 ^ (f + 149).toNat
        = m * 2 ^ (e + 149).toNat * 2 ^ j := by rw [Nat.shiftLeft_eq, mul_assoc, ← hpow, mul_assoc]
      _ ≤ n * 2 ^ (f + 149).toNat * 2 ^ j := Nat.mul_le_mul_right _ h
      _ = n * 2 ^ j * 2 ^ (f + 149).toNat := mul_right_comm _ _ _
  have hready : -(j : ℤ) ≤ target (m <<< k / n) (-j) := by
    have hlow := le_log2_div (m := m <<< k) (Nat.shiftLeft_pos_iff.mpr hm).ne' hn
    rw [log2_shiftLeft hm.ne'] at hlow
    unfold target
    omega
  rw [hdiv]
  refine reach_round_le hready ((Nat.div_le_of_le_mul hshift).lt_or_eq.imp_right fun hone => ⟨hone, ?_⟩)
  have hrest : m <<< k % n = 0 := by
    have hparts := Nat.div_add_mod (m <<< k) n
    rw [hone] at hparts
    omega
  rw [hrest]
  rfl

/-- What is not negative and does not reach past one is a fraction. -/
theorem fraction_pack {u : UnpackedFloat} (hne : u ≠ .notANumber) (hsign : signOf u = .positive)
    (hreach : reach (Float32.Model.pack u).unpack ≤ 1065353216) : Fraction (.ofModel (Float32.Model.pack u)) := by
  have hnan : (Float32.ofModel (Float32.Model.pack u)).isNaN = false := isNaN_pack hne
  have hheight : height (.ofModel (Float32.Model.pack u)) = reach (Float32.Model.pack u).unpack := by
    show level (Float32.Model.pack u).unpack = _
    rw [level_eq_apply, signOf_pack hne, hsign]
    rfl
  have hlow : 0 ≤ reach (Float32.Model.pack u).unpack := by
    refine (unpack_spec (unpack_pack_ne hne)).2.2.symm ▸ ?_
    positivity
  rw [← hheight] at hreach hlow
  exact ⟨(le_iff_height rfl hnan).mpr hlow, (le_iff_height hnan rfl).mpr hreach⟩

/-- **A quotient by a number that is not less is a fraction.** -/
theorem fraction_quotient (hx : 0 ≤ x) (h : x ≤ y) (hpos : 0 < y) (hfinite : y.isFinite = true) :
    Fraction (x / y) := by
  have hxfinite : x.isFinite = true := isFinite_of_between hx h rfl hfinite
  obtain ⟨f, n, hn, hy⟩ := exists_sized hpos hfinite
  have hquot : x / y = .ofModel (Float32.Model.pack (UnpackedFloat.div .binary32 x.toModel.unpack y.toModel.unpack)) :=
    rfl
  obtain ⟨s, hzero⟩ | ⟨s, m, e, hm, hsized⟩ := isFinite_iff.mp hxfinite
  · rw [hzero, hy] at hquot
    have hdiv : x / y = .ofModel (Float32.Model.pack (.zero (s / .positive))) := hquot
    rw [hdiv]
    cases s <;> exact ⟨by decide, by decide⟩
  · obtain rfl : s = .positive := by
      cases s with
      | positive => rfl
      | negative => exact absurd (neg_iff_signed.mpr (.inr ⟨m, e, hm, hsized⟩)) (not_lt_of_le hx)
    have hparts : m * 2 ^ (e + 149).toNat ≤ n * 2 ^ (f + 149).toNat := by
      have hunits := units_mono hxfinite hfinite h
      rw [units, units, hsized, hy] at hunits
      exact Int.ofNat_le.mp hunits
    rw [hquot, hsized, hy]
    exact fraction_pack (round_ne _ _ _ _ _) (signOf_round _ _ _ _ _)
      (reach_div_le hm hn (bounds_of_unpack hsized).1 (bounds_of_unpack hy).1 hparts)

/-! ### Sums -/

/-- Where a sum of fractions stays: a number more makes no difference there. -/
def ceiling : Float32 := 16777216

/-- **One more fraction** makes a sum no less, and at least that fraction. -/
theorem sum_fraction (hx : 0 ≤ x) (hle : x ≤ ceiling) (hy : Fraction y) :
    x ≤ x + y ∧ y ≤ x + y ∧ x + y ≤ ceiling := by
  have hfinite : x.isFinite = true := isFinite_of_between hx hle rfl rfl
  have hright := sum_mono rfl hfinite hy.isFinite hy.isFinite hx (le_refl hy.isNaN)
  have hzero : y ≤ 0 + y := by
    rw [le_iff_height hy.isNaN (isNaN_add rfl hy.isFinite), height_units hy.isFinite, height_add rfl hy.isFinite,
      show units 0 = 0 from rfl, zero_add]
  have htop : x + y ≤ ceiling + 1 := sum_mono hfinite rfl hy.isFinite rfl hle hy.le_one
  exact ⟨le_sum hfinite hy.isFinite hy.nonneg, le_trans hzero hright, le_trans htop (by decide)⟩

/-- **A sum of fractions** is at least each of them, and stays below the ceiling. -/
theorem foldl_fractions (hl : ∀ y ∈ l, Fraction y) (hx : 0 ≤ x) (hle : x ≤ ceiling) :
    x ≤ l.foldl (· + ·) x ∧ (∀ y ∈ l, y ≤ l.foldl (· + ·) x) ∧ l.foldl (· + ·) x ≤ ceiling := by
  -- The sum so far takes part in the induction: it is not negative and not above the ceiling.
  induction l generalizing x with
  | nil => exact ⟨le_refl (ne_nan_of_le hle).1, by simp, hle⟩
  | cons y l ih =>
    obtain ⟨hfirst, hsecond, hbound⟩ := sum_fraction hx hle (hl y List.mem_cons_self)
    obtain ⟨hsum, hrest, htop⟩ := ih (fun z hz => hl z (List.mem_cons_of_mem y hz)) (le_trans hx hfirst) hbound
    refine ⟨le_trans hfirst hsum, ?_, htop⟩
    intro z hz
    rcases List.mem_cons.mp hz with rfl | hz
    · exact le_trans hsecond hsum
    · exact hrest z hz

/-- A sum of fractions is at most that of as many ones. -/
theorem foldl_le_ones (hl : ∀ z ∈ l, Fraction z) (hx : 0 ≤ x) (hxy : x ≤ y) (hy : y ≤ ceiling) :
    l.foldl (· + ·) x ≤ (List.replicate l.length 1).foldl (· + ·) y := by
  induction l generalizing x y with
  | nil => exact hxy
  | cons z l ih =>
    have hz := hl z List.mem_cons_self
    have hyfinite : y.isFinite = true := isFinite_of_between (le_trans hx hxy) hy rfl rfl
    have hxfinite : x.isFinite = true := isFinite_of_between hx (le_trans hxy hy) rfl rfl
    have hfirst := (sum_fraction hx (le_trans hxy hy) hz).1
    have hbound := (sum_fraction (le_trans hx hxy) hy fraction_one).2.2
    exact ih (fun w hw => hl w (List.mem_cons_of_mem z hw)) (le_trans hx hfirst)
      (sum_mono hxfinite hyfinite hz.isFinite rfl hxy hz.le_one) hbound

end NpcMind.Single
