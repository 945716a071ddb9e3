import Mathlib
import NpcMind.Proofs.Portions
import NpcMind.Proofs.Signs

/-!
# Where arithmetic overflows

The largest number has 24 binary digits, all of them ones, and half of its last digit is the most that rounding takes
away there. So what is rounded stays finite exactly if it is below the largest number and that half. A product
overflows if it reaches this bound, and a summand of less than the half can be added to any finite number, as often as
one likes.
-/

namespace NpcMind.Single

open Float.Model Float.Model.UnpackedFloat

variable {x y : Float32} {m n k : ℕ} {e f : ℤ} {s t : Sign}

/-! ### Rounding the digits that do not fit -/

theorem shift_succ (m k : ℕ) : ExtendedMantissa.mk m false false >>> (k + 1) =
    ⟨m / 2 ^ k / 2, m / 2 ^ k % 2 != 0, m % 2 ^ k != 0⟩ := by
  show (k + 1).repeat ExtendedMantissa.shiftRightOne _ = _
  induction k with
  | zero => simp [Nat.repeat, ExtendedMantissa.shiftRightOne, Nat.mod_one]
  | succ k ih =>
    have hsticky : (m / 2 ^ k % 2 != 0 || m % 2 ^ k != 0) = (m % 2 ^ (k + 1) != 0) := by
      rw [Bool.eq_iff_iff, Nat.mod_pow_succ]
      simp only [Bool.or_eq_true, bne_iff_ne, ne_eq]
      have hpow := Nat.two_pow_pos k
      rcases Nat.mod_two_eq_zero_or_one (m / 2 ^ k) with h | h <;> rw [h] <;> omega
    rw [Nat.repeat, ih, ExtendedMantissa.shiftRightOne]
    simp only [hsticky, Nat.div_div_eq_div_mul, ← pow_succ]

/-- Of the digits that are kept, a 25th one appears only if all others and the first one dropped are ones. -/
theorem rounded_lt_iff (h : m / 2 ^ k < 33554432) :
    (ExtendedMantissa.mk m false false >>> (k + 1)).roundedMantissa < 16777216 ↔ m / 2 ^ k < 33554431 := by
  rw [shift_succ]
  generalize m / 2 ^ k = n at h
  generalize (m % 2 ^ k != 0) = sticky
  cases hround : n % 2 != 0 with
  | false =>
    have heven : n % 2 = 0 := by simpa using hround
    cases sticky <;> show n / 2 < _ ↔ _ <;> omega
  | true =>
    have hodd : n % 2 = 1 := by simpa using hround
    cases sticky
    · show n / 2 + n / 2 % 2 < _ ↔ _
      omega
    · show n / 2 + 1 < _ ↔ _
      omega

/-- The exponent to which a number is rounded first. -/
def target (m : ℕ) (e : ℤ) : ℤ := max (m.log2 + 1 + e - 24) (-149)

/-- What is left of a mantissa after it was rounded. -/
def rounded (m : ℕ) (e : ℤ) : ℕ := (ExtendedMantissa.mk m false false >>> (target m e - e).toNat).roundedMantissa

theorem round_exact_cases (s : Sign) (m : ℕ) (e : ℤ) : roundWithAccuracy .binary32 s m e .exact = .zero s ∨
    ∃ n hn, roundWithAccuracy .binary32 s m e .exact =
      .finite s n (max (max e (target m e)) (target (rounded m e) (max e (target m e)))) hn := by
  have hmin : Format.binary32.minExponent = -149 := rfl
  have hbits : Format.binary32.mantissaBits = 24 := rfl
  have hfirst : (shiftToTargetExponent .binary32 m e .exact).2 = max e (target m e) := by
    rw [exponent_shift, target]
    omega
  have hrounded : (shiftToTargetExponent .binary32 m e .exact).1.roundedMantissa = rounded m e := rfl
  have hsecond := exponent_shift .binary32 (rounded m e) (max e (target m e)) .exact
  unfold roundWithAccuracy
  dsimp only
  rw [hrounded, hfirst]
  split
  · exact .inl rfl
  · next hne =>
    refine .inr ⟨_, Nat.pos_of_ne_zero hne, ?_⟩
    congr 1
    rw [hsecond, target, target]
    omega

theorem within_finite {hm : 0 < m} : Within f (.finite s m e hm) ↔ e ≤ f := by
  constructor
  · rintro (⟨t, h⟩ | ⟨t, n, g, hn, h, hle⟩)
    · cases h
    · cases h
      exact hle
  · exact fun h => .inr ⟨s, m, e, hm, rfl, h⟩

/-- A number that is not below all others is rounded to one with the exponent it is given. -/
theorem within_round_iff_exponent (s : Sign) (hlog : 0 < m.log2) (he : -149 < e + m.log2) :
    Within f (roundWithAccuracy .binary32 s m e .exact) ↔
      max (max e (target m e)) (target (rounded m e) (max e (target m e))) ≤ f := by
  obtain ⟨n, g, hn, hfinite, -⟩ := round_pos (e := e) s .exact hlog he
  obtain hzero | ⟨n', hn', hround⟩ := round_exact_cases s m e
  · rw [hfinite] at hzero
    cases hzero
  · rw [hround, within_finite]

theorem max_target_le_iff (m : ℕ) : max (104 : ℤ) (target m 104) ≤ 104 ↔ m < 16777216 := by
  rcases Nat.eq_zero_or_pos m with rfl | hm
  · decide
  · rw [target, ← Nat.log2_lt (k := 24) hm.ne']
    omega

/-- **Rounding stays in range** exactly if the number is below the largest one and half of its last digit. -/
theorem within_round_iff (s : Sign) (hm : 0 < m) (he : e ≤ 104) :
    Within 104 (roundWithAccuracy .binary32 s m e .exact) ↔ 2 * m < 33554431 * 2 ^ (104 - e).toNat := by
  obtain ⟨k, rfl⟩ : ∃ k : ℕ, e = 104 - k := ⟨(104 - e).toNat, by omega⟩
  have hk : (104 - (104 - (k : ℤ))).toNat = k := by omega
  have hpow := Nat.two_pow_pos k
  have hlower := Nat.log2_self_le hm.ne'
  have hupper := Nat.lt_log2_self (n := m)
  rw [hk]
  rcases lt_trichotomy m.log2 (23 + k) with hlt | heq | hgt
  · -- There is room for one more digit.
    have hbelow : 2 ^ (m.log2 + 1) ≤ 2 ^ (23 + k) := Nat.pow_le_pow_right (by decide) (by omega)
    rw [pow_add _ 23] at hbelow
    refine iff_of_true ?_ (by omega)
    rcases Nat.eq_zero_or_pos k with rfl | hpos
    · obtain hzero | ⟨n, hn, hround⟩ := round_exact_cases s m (104 - (0 : ℕ))
      · exact .inl ⟨s, hzero⟩
      · rw [hround, within_finite, rounded, show (target m (104 - (0 : ℕ)) - (104 - (0 : ℕ))).toNat = 0 by
          rw [target]; omega]
        show max _ (target m _) ≤ _
        rw [target, target]
        omega
    · exact within_round s .exact (by omega) (by omega) (by decide)
  · -- The digits that are kept are the 24 of the largest number, and the last of them may be rounded up.
    have htarget : target m (104 - k) = 104 := by rw [target]; omega
    rw [within_round_iff_exponent s (by omega) (by omega), rounded, htarget, hk,
      max_eq_right (by omega : 104 - (k : ℤ) ≤ 104)]
    rw [max_target_le_iff]
    rw [heq, pow_add _ 23] at hlower
    rw [heq, add_right_comm, pow_add _ 24] at hupper
    cases k with
    | zero =>
      show m < _ ↔ _
      omega
    | succ j =>
      have hdiv : m / 2 ^ j < 33554432 := by
        rw [Nat.div_lt_iff_lt_mul (Nat.two_pow_pos j)]
        rw [pow_succ] at hupper
        omega
      rw [rounded_lt_iff hdiv, Nat.div_lt_iff_lt_mul (Nat.two_pow_pos j), pow_succ]
      omega
  · have hbeyond : 2 ^ (24 + k) ≤ 2 ^ m.log2 := Nat.pow_le_pow_right (by decide) (by omega)
    rw [pow_add _ 24] at hbeyond
    rw [within_round_iff_exponent s (by omega) (by omega)]
    refine iff_of_false (fun h => ?_) (by omega)
    have htarget := ((le_max_right _ _).trans (le_max_left _ _)).trans h
    rw [target] at htarget
    omega

theorem within_exact_iff (s : Sign) (hm : 0 < m) (he : e ≤ 104) :
    Within 104 (UnpackedFloat.round .binary32 s m e) ↔ 2 * m < 33554431 * 2 ^ (104 - e).toNat := by
  unfold UnpackedFloat.round decreaseExponent
  dsimp only
  generalize (e - Format.targetExponent .binary32 (totalExponent m e)).toNat = j
  have hpow : 2 ^ (104 - (e - (j : ℤ))).toNat = 2 ^ (104 - e).toNat * 2 ^ j := by
    rw [← pow_add]
    congr 1
    omega
  rw [within_round_iff s (Nat.shiftLeft_pos_iff.mpr hm) (by omega), hpow, Nat.shiftLeft_eq, ← mul_assoc,
    ← mul_assoc, Nat.mul_lt_mul_right (Nat.two_pow_pos j)]

theorem isFinite_of_within {u : UnpackedFloat} (h : Within 104 u) :
    (Float32.ofModel (Float32.Model.pack u)).isFinite = true :=
  Below.isFinite (k := 104) (within_pack h (by decide) le_rfl)

theorem isFinite_pack_iff {u : UnpackedFloat} (hu : u ≠ .notANumber) :
    (Float32.ofModel (Float32.Model.pack u)).isFinite = true ↔ Within 104 u := by
  constructor
  · intro hfinite
    cases u with
    | notANumber => exact absurd rfl hu
    | zero s => exact .inl ⟨s, rfl⟩
    | infinity s =>
      rw [isFinite_pack_eq_false (.inr ⟨s, rfl⟩)] at hfinite
      cases hfinite
    | finite s m e hm =>
      rw [within_finite]
      by_contra hbig
      have hpack : UnpackedFloat.pack .binary32 (.finite s m e hm) = UnpackedFloat.pack .binary32 (.infinity s) := by
        have hbias : Format.binary32.exponentBias = 127 := rfl
        unfold UnpackedFloat.pack
        dsimp only
        rw [hbias, if_pos (by show 256 ≤ _; omega)]
      have hmodel : Float32.Model.pack (.finite s m e hm) = Float32.Model.pack (.infinity s) := by
        simp only [Float32.Model.pack, hpack]
      rw [hmodel, isFinite_pack_eq_false (.inr ⟨s, rfl⟩)] at hfinite
      cases hfinite
  · exact isFinite_of_within

/-! ### Products -/

/-- **A product overflows** from the bound on. -/
theorem isFinite_mul_iff {hm : 0 < m} {hn : 0 < n} (hx : x.toModel.unpack = .finite s m e hm)
    (hy : y.toModel.unpack = .finite t n f hn) (hef : e + f ≤ 104) :
    (x * y).isFinite = true ↔ 2 * (m * n) < 33554431 * 2 ^ (104 - (e + f)).toNat := by
  have hmul : UnpackedFloat.mul .binary32 x.toModel.unpack y.toModel.unpack =
      roundWithAccuracy .binary32 (s * t) (m * n) (e + f) .exact := by
    rw [hx, hy]
    rfl
  rw [← within_round_iff (s * t) (Nat.mul_pos hm hn) hef, ← hmul]
  refine isFinite_pack_iff ?_
  rw [hmul]
  exact round_ne _ _ _ _ _

theorem product_comm (x y : Float32) : x * y = y * x := by
  have hmul : UnpackedFloat.mul .binary32 x.toModel.unpack y.toModel.unpack =
      UnpackedFloat.mul .binary32 y.toModel.unpack x.toModel.unpack := by
    have hsign (s t : Sign) : s * t = t * s := by cases s <;> cases t <;> rfl
    cases x.toModel.unpack <;> cases y.toModel.unpack <;>
      simp only [UnpackedFloat.mul, hsign, Nat.mul_comm, Int.add_comm]
  show Float32.ofModel (Float32.Model.pack _) = Float32.ofModel (Float32.Model.pack _)
  rw [hmul]

/-! ### Sums -/

theorem within_normalize_iff {z : ℤ} (s : Sign) (he : e ≤ 104) :
    Within 104 (UnpackedFloat.normalize .binary32 z e s) ↔ 2 * z.natAbs < 33554431 * 2 ^ (104 - e).toNat := by
  unfold UnpackedFloat.normalize
  split
  · next h =>
    have hneg := Std.compare_eq_lt.mp h
    rw [within_exact_iff _ (by omega) he, show (-z).toNat = z.natAbs by omega]
  · next h =>
    rw [compare_eq_iff_eq.mp h]
    exact iff_of_true (.inl ⟨s, rfl⟩) (by positivity)
  · next h =>
    have hpos := Std.compare_eq_gt.mp h
    rw [within_exact_iff _ (by omega) he, show z.toNat = z.natAbs by omega]

theorem natAbs_apply_add (s t : Sign) (a b : ℕ) : (s.apply (a : ℤ) + t.apply (b : ℤ)).natAbs ≤ a + b := by
  cases s <;> cases t <;> simp only [Sign.apply] <;> omega

/-- A number with 24 digits, written with a lesser exponent. -/
theorem shiftLeft_le {l d : ℕ} (hm : m < 16777216) (hk : k + l = d) : m <<< k * 2 ^ l ≤ 16777215 * 2 ^ d := by
  rw [Nat.shiftLeft_eq, mul_assoc, ← pow_add, hk]
  exact Nat.mul_le_mul_right _ (by omega)

/-- A sum of aligned numbers, one of which is below half of the last digit of the largest number. -/
theorem aligned_lt {d : ℤ} {z : ℤ} (hm : m < 16777216) (hn : n < 16777216) (he : e ≤ 104) (hf : f ≤ 79) (hde : d ≤ e)
    (hdf : d ≤ f) (hz : z.natAbs ≤ m <<< (e - d).toNat + n <<< (f - d).toNat) :
    2 * z.natAbs < 33554431 * 2 ^ (104 - d).toNat := by
  have hfirst := shiftLeft_le (k := (e - d).toNat) (l := (104 - e).toNat) (d := (104 - d).toNat) hm (by omega)
  have hsecond := shiftLeft_le (k := (f - d).toNat) (l := 25 + (79 - f).toNat) (d := (104 - d).toNat) hn (by omega)
  have hone := Nat.le_mul_of_pos_right (m <<< (e - d).toNat) (Nat.two_pow_pos (104 - e).toNat)
  have hhalf := Nat.le_mul_of_pos_right (n <<< (f - d).toNat * 2 ^ 25) (Nat.two_pow_pos (79 - f).toNat)
  rw [pow_add, ← mul_assoc] at hsecond
  have hpow := Nat.two_pow_pos (104 - d).toNat
  omega

/-- **What is below half of the last digit of the largest number** can be added to anything finite. -/
theorem isFinite_add_of_below (hx : x.isFinite = true) (hy : Below 79 y) : (x + y).isFinite = true := by
  refine isFinite_of_within ?_
  obtain ⟨s, hx⟩ | ⟨s, m, e, hm, hx⟩ := isFinite_iff.mp hx <;>
    obtain ⟨t, hy⟩ | ⟨t, n, f, hn, hy, hf⟩ := hy <;> rw [hx, hy]
  · cases s <;> cases t <;> exact .inl ⟨_, rfl⟩
  · exact .inr ⟨t, n, f, hn, rfl, by omega⟩
  · exact .inr ⟨s, m, e, hm, rfl, (bounds_of_unpack hx).2.1⟩
  · obtain ⟨-, he, hm', -⟩ := canonical_of_unpack hx
    refine (within_normalize_iff (e := min e f) .positive (by omega)).mpr ?_
    exact aligned_lt hm' (unpack_finite_lt hy) he hf (min_le_left e f) (min_le_right e f) (natAbs_apply_add s t _ _)

/-- Anything finite can be taken away from it. -/
theorem isFinite_sub_of_below (hx : Below 79 x) (hy : y.isFinite = true) : (x - y).isFinite = true := by
  refine isFinite_of_within ?_
  obtain ⟨s, hx⟩ | ⟨s, m, e, hm, hx, he⟩ := hx <;>
    obtain ⟨t, hy⟩ | ⟨t, n, f, hn, hy⟩ := isFinite_iff.mp hy <;> rw [hx, hy]
  · cases s <;> cases t <;> exact .inl ⟨_, rfl⟩
  · exact .inr ⟨-t, n, f, hn, rfl, (bounds_of_unpack hy).2.1⟩
  · exact .inr ⟨s, m, e, hm, rfl, by omega⟩
  · obtain ⟨-, hf, hn', -⟩ := canonical_of_unpack hy
    refine (within_normalize_iff (e := min e f) .positive (by omega)).mpr ?_
    refine aligned_lt hn' (unpack_finite_lt hx) hf he (min_le_right e f) (min_le_left e f) ?_
    rw [Nat.add_comm]
    exact natAbs_apply_sub s t _ _

/-! ### Factors up to one -/

theorem height_finite {hm : 0 < m} (hx : x.toModel.unpack = .finite s m e hm) :
    height x = s.apply ((e + 149) * 8388608 + m) := by
  rw [height, hx]
  cases s <;> simp only [level, signOf, reach, Sign.apply]

/-- What lies between a power of two and its opposite has a lesser exponent. -/
theorem below_of_between {lo hi : Float32} {h : 0 < 8388608} (he : -149 ≤ e) (hlo : lo < x) (hhi : x < hi)
    (hl : lo.toModel.unpack = .finite .negative 8388608 (e + 1) h)
    (hh : hi.toModel.unpack = .finite .positive 8388608 (e + 1) h) : Below e x := by
  have hnan := (ne_nan_of_lt hlo).2
  have hfinite : x.isFinite = true := isFinite_of_between (le_of_lt hlo) (le_of_lt hhi)
    (isFinite_iff.mpr (.inr ⟨_, _, _, _, hl⟩)) (isFinite_iff.mpr (.inr ⟨_, _, _, _, hh⟩))
  rw [lt_iff_height (ne_nan_of_lt hlo).1 hnan, height_finite hl] at hlo
  rw [lt_iff_height hnan (ne_nan_of_lt hhi).2, height_finite hh] at hhi
  obtain ⟨s, hx⟩ | ⟨s, m, f, hm, hx⟩ := isFinite_iff.mp hfinite
  · exact .inl ⟨s, hx⟩
  · refine .inr ⟨s, m, f, hm, hx, ?_⟩
    obtain ⟨-, -, -, hfull⟩ := canonical_of_unpack hx
    rw [height_finite hx] at hlo hhi
    cases s <;> simp only [Sign.apply] at hlo hhi <;> omega

theorem isFinite_of_beq_zero (h : (x == 0) = true) : x.isFinite = true := isFinite_iff.mpr (.inl (beq_zero_iff.mp h))

/-- A number from -1 to 1 has its first digit behind the point, unless it is one of the two. -/
theorem exponent_of_signed {hm : 0 < m} (hx : x.toModel.unpack = .finite s m e hm) (hlo : -1 ≤ x) (hhi : x ≤ 1) :
    e ≤ -24 ∨ e = -23 ∧ m = 8388608 := by
  have hone : (1 : Float32).toModel.unpack = .finite .positive 8388608 (-23) (by decide) := rfl
  have hminus : (-1 : Float32).toModel.unpack = .finite .negative 8388608 (-23) (by decide) := rfl
  have hnan := (ne_nan_of_le hhi).1
  obtain ⟨-, -, -, hfull⟩ := canonical_of_unpack hx
  rw [le_iff_height rfl hnan, height_finite hminus, height_finite hx] at hlo
  rw [le_iff_height hnan rfl, height_finite hone, height_finite hx] at hhi
  cases s <;> simp only [Sign.apply] at hlo hhi <;> omega

/-- **A factor from -1 to 1** makes nothing overflow. -/
theorem isFinite_mul_of_signed (hx : x.isFinite = true) (hlo : -1 ≤ y) (hhi : y ≤ 1) : (x * y).isFinite = true := by
  have hy := isFinite_of_between hlo hhi rfl rfl
  obtain ⟨s, hx'⟩ | ⟨s, m, e, hm, hx'⟩ := isFinite_iff.mp hx
  · exact isFinite_of_beq_zero (beq_zero_mul (beq_zero_iff.mpr ⟨s, hx'⟩) hy)
  obtain ⟨t, hy'⟩ | ⟨t, n, f, hn, hy'⟩ := isFinite_iff.mp hy
  · exact isFinite_of_beq_zero (beq_mul_zero hx (beq_zero_iff.mpr ⟨t, hy'⟩))
  obtain ⟨-, he, hm', -⟩ := canonical_of_unpack hx'
  have hn' := unpack_finite_lt hy'
  have hf := exponent_of_signed hy' hlo hhi
  rw [isFinite_mul_iff hx' hy' (by omega)]
  rcases hf with hf | ⟨rfl, rfl⟩
  · have hpow : 2 ^ 24 ≤ 2 ^ (104 - (e + f)).toNat := Nat.pow_le_pow_right (by decide) (by omega)
    have hproduct : m * n ≤ 16777215 * 16777215 := Nat.mul_le_mul (by omega) (by omega)
    omega
  · have hpow : 2 ^ 23 ≤ 2 ^ (104 - (e + -23)).toNat := Nat.pow_le_pow_right (by decide) (by omega)
    omega

/-! ### Factors below two -/

theorem isFinite_mul_of_below (hx : Below 103 x) (hy : Below (-23) y) : (x * y).isFinite = true := by
  obtain ⟨s, hx'⟩ | ⟨s, m, e, hm, hx', he⟩ := hx
  · exact isFinite_of_beq_zero (beq_zero_mul (beq_zero_iff.mpr ⟨s, hx'⟩) hy.isFinite)
  obtain ⟨t, hy'⟩ | ⟨t, n, f, hn, hy', hf⟩ := hy
  · refine isFinite_of_beq_zero (beq_mul_zero ?_ (beq_zero_iff.mpr ⟨t, hy'⟩))
    exact isFinite_iff.mpr (.inr ⟨s, m, e, hm, hx'⟩)
  rw [isFinite_mul_iff hx' hy' (by omega)]
  have hm' := unpack_finite_lt hx'
  have hn' := unpack_finite_lt hy'
  have hpow : 2 ^ 24 ≤ 2 ^ (104 - (e + f)).toNat := Nat.pow_le_pow_right (by decide) (by omega)
  have hproduct : m * n ≤ 16777215 * 16777215 := Nat.mul_le_mul (by omega) (by omega)
  omega

/-- The largest number there is. -/
def largest : Float32 := Float32.ofBits 0x7F7FFFFF

/-- **A factor above one** makes the largest number overflow. -/
theorem isFinite_largest_mul (hlo : 1 < y) (hy : Below (-23) y) : (largest * y).isFinite = false := by
  have hlargest : largest.toModel.unpack = .finite .positive 16777215 104 (by decide) := rfl
  have hone : (1 : Float32).toModel.unpack = .finite .positive 8388608 (-23) (by decide) := rfl
  rw [lt_iff_height rfl (ne_nan_of_lt hlo).2, height_finite hone] at hlo
  obtain ⟨t, hy'⟩ | ⟨t, n, f, hn, hy', hf⟩ := hy
  · rw [height, hy'] at hlo
    cases t <;> exact absurd hlo (by decide)
  · have hlt := unpack_finite_lt hy'
    obtain ⟨hf', -, -⟩ := bounds_of_unpack hy'
    rw [← Bool.not_eq_true, isFinite_mul_iff hlargest hy' (by omega)]
    rw [height_finite hy'] at hlo
    obtain ⟨rfl, hn'⟩ : f = -23 ∧ 8388608 < n := by
      cases t <;> simp only [Sign.apply] at hlo <;> omega
    show ¬ 2 * (16777215 * n) < 33554431 * 2 ^ 23
    omega

/-! ### Averages -/

/-- Rounding a number with enough digits keeps 24 of them. -/
theorem round_full (s : Sign) (a : Accuracy) (hm : 23 ≤ m.log2) (he : -149 ≤ e) : ∃ n f hn,
    roundWithAccuracy .binary32 s m e a = .finite s n f hn ∧ n.log2 = 23 ∧ e + m.log2 - 23 ≤ f := by
  have hmin : Format.binary32.minExponent = -149 := rfl
  have hbits : Format.binary32.mantissaBits = 24 := rfl
  -- The first shift is settled before the second one comes into play.
  have hfirst : (shiftToTargetExponent .binary32 m e a).1.mantissa.log2 = 23 := by
    rw [log2_shift, hmin, hbits]
    omega
  have hexponent : (shiftToTargetExponent .binary32 m e a).2 = e + m.log2 - 23 := by
    rw [exponent_shift, hmin, hbits]
    omega
  have hup := log2_mono (le_roundedMantissa (shiftToTargetExponent .binary32 m e a).1)
  have hdown := log2_le_of_le_succ (roundedMantissa_le (shiftToTargetExponent .binary32 m e a).1)
  have hsecond := log2_shift .binary32 (shiftToTargetExponent .binary32 m e a).1.roundedMantissa
    (shiftToTargetExponent .binary32 m e a).2 .exact
  have hlast := exponent_shift .binary32 (shiftToTargetExponent .binary32 m e a).1.roundedMantissa
    (shiftToTargetExponent .binary32 m e a).2 .exact
  unfold roundWithAccuracy
  dsimp only
  split
  · next hzero =>
    rw [hzero, Nat.log2_zero] at hsecond
    omega
  · next hne => exact ⟨_, _, Nat.pos_of_ne_zero hne, rfl, by omega, by omega⟩

theorem reach_pack (s : Sign) (hm : 0 < m) (hlog : m.log2 = 23) (he : -149 ≤ e) (he' : e ≤ 104) :
    reach (Float32.Model.pack (.finite s m e hm)).unpack = (e + 149) * 8388608 + m := by
  refine (unpack_spec (unpack_pack_ne UnpackedFloat.noConfusion)).2.2.trans ?_
  show ((@unpackExponent .binary32 (UnpackedFloat.pack .binary32 (.finite s m e hm))).toNat : ℤ) * 8388608 +
    (@unpackMantissa .binary32 (UnpackedFloat.pack .binary32 (.finite s m e hm))).toNat = _
  have hbias : Format.binary32.exponentBias = 127 := rfl
  have hbits : Format.binary32.mantissaBits = 24 := rfl
  have hlo : 8388608 ≤ m := (Nat.le_log2 hm.ne').mp hlog.ge
  have hhi : m < 16777216 := (Nat.log2_lt (k := 24) hm.ne').mp (by omega)
  unfold UnpackedFloat.pack
  dsimp only
  rw [hbias, hbits, if_neg (by show ¬ 256 ≤ _; omega), if_pos (by omega), unpackExponent_packComponents,
    unpackMantissa_packComponents, BitVec.toNat_ofNat, BitVec.toNat_ofNat]
  show (((e + (127 : ℕ) + (23 : ℕ)).toNat % 256 : ℕ) : ℤ) * 8388608 + ((m % 8388608 : ℕ) : ℤ) = _
  omega

/-- A number with all its digits is packed as it is. -/
theorem unpack_pack_full (s : Sign) (hm : 0 < m) (hlog : m.log2 = 23) (he : -149 ≤ e) (he' : e ≤ 104) :
    (Float32.Model.pack (.finite s m e hm)).unpack = .finite s m e hm := by
  have hne : UnpackedFloat.finite s m e hm ≠ .notANumber := UnpackedFloat.noConfusion
  have hsign := signOf_pack hne
  have hreach := reach_pack s hm hlog he he'
  have hcanonical : Canonical (Float32.Model.pack (.finite s m e hm)).unpack := (unpack_spec (unpack_pack_ne hne)).1
  have hlo : 8388608 ≤ m := (Nat.le_log2 hm.ne').mp hlog.ge
  have hhi : m < 16777216 := (Nat.log2_lt (k := 24) hm.ne').mp (by omega)
  cases hu : (Float32.Model.pack (.finite s m e hm)).unpack with
  | notANumber => exact absurd hu (unpack_pack_ne hne)
  | infinity t =>
    rw [hu, reach] at hreach
    omega
  | zero t =>
    rw [hu] at hreach
    simp only [reach] at hreach
    omega
  | finite t n f hn =>
    rw [hu] at hsign hreach hcanonical
    obtain ⟨-, -, hn', hfull⟩ := hcanonical
    obtain rfl : t = s := hsign
    rw [reach] at hreach
    obtain ⟨rfl, rfl⟩ : f = e ∧ n = m := by omega
    rfl

/-- A count of four or more has all its digits. -/
theorem unpack_toFloat32 {n : UInt32} (hn : 4 ≤ n.toNat) : ∃ m e hm,
    n.toFloat32.toModel.unpack = .finite .positive m e hm ∧ m.log2 = 23 ∧ -21 ≤ e ∧ e ≤ 10 := by
  have hlt : n.toNat < 4294967296 := n.toNat_lt
  have hlog : 2 ≤ n.toNat.log2 := (Nat.le_log2 (by omega)).mpr hn
  have hlog' : n.toNat.log2 < 32 := (Nat.log2_lt (by omega)).mpr hlt
  have hmin : Format.binary32.minExponent = -149 := rfl
  have hbits : Format.binary32.mantissaBits = 24 := rfl
  obtain ⟨k, hk⟩ : ∃ k, k = (0 - Format.targetExponent .binary32 (totalExponent n.toNat 0)).toNat := ⟨_, rfl⟩
  have hshift : k = 23 - n.toNat.log2 := by
    rw [hk, Format.targetExponent, totalExponent]
    omega
  have hdigits := log2_shiftLeft (n := n.toNat) (by omega) k
  obtain ⟨m, e, hm, hround, hfull, he⟩ := round_full (m := n.toNat <<< k) (e := 0 - k) .positive .exact (by omega)
    (by omega)
  have hcount : UnpackedFloat.ofNat .binary32 n.toNat = .finite .positive m e hm := by
    have hpos : compare (n.toNat : ℤ) 0 = .gt := Std.compare_eq_gt.mpr (by omega)
    rw [← hround, hk]
    unfold UnpackedFloat.ofNat UnpackedFloat.ofInt UnpackedFloat.normalize
    rw [hpos]
    rfl
  have hwithin : Within 10 (UnpackedFloat.ofNat .binary32 n.toNat) :=
    within_normalize .positive (by decide) (by rw [Int.natAbs_natCast]; omega) (by decide)
  rw [hcount, within_finite] at hwithin
  refine ⟨m, e, hm, ?_, hfull, by omega, hwithin⟩
  show (Float32.Model.pack (UnpackedFloat.ofNat .binary32 n.toNat)).unpack = _
  rw [hcount, unpack_pack_full .positive hm hfull (by omega) (by omega)]

theorem below_one_div {hn : 0 < n} (hy : y.toModel.unpack = .finite .positive n f hn) (hfull : n.log2 = 23)
    (hlo : -21 ≤ f) (hhi : f ≤ 10) : Below (-24) (1 / y) := by
  have hmin : Format.binary32.minExponent = -149 := rfl
  have hbits : Format.binary32.mantissaBits = 24 := rfl
  have hone : (1 : Float32).toModel.unpack = .finite .positive 8388608 (-23) (by decide) := rfl
  have htarget : min (-23 - f) (Format.targetExponent .binary32 (totalExponent 8388608 (-23) - totalExponent n f)) =
      -47 - f := by
    rw [Format.targetExponent, totalExponent, totalExponent, hfull, show (8388608 : ℕ).log2 = 23 from by decide]
    omega
  have hquotient : (8388608 <<< (-23 - f - (-47 - f)).toNat / n).log2 ≤ 24 := by
    have hn' : 8388608 ≤ n := (Nat.le_log2 hn.ne').mp hfull.ge
    rw [show (-23 - f - (-47 - f)).toNat = 24 by omega]
    exact log2_mono (Nat.div_le_of_le_mul (by omega) : 8388608 <<< 24 / n ≤ 16777216)
  refine within_pack ?_ (by decide) (by decide)
  show Within (-24) (UnpackedFloat.div .binary32 (1 : Float32).toModel.unpack y.toModel.unpack)
  rw [hone, hy]
  unfold UnpackedFloat.div divCore
  dsimp only
  rw [htarget]
  exact within_round _ _ (by omega) (by omega) (by decide)

theorem Below.le_one (h : Below (-24) x) : x ≤ 1 := by
  have hone : (1 : Float32).toModel.unpack = .finite .positive 8388608 (-23) (by decide) := rfl
  rw [le_iff_height (isNaN_of_isFinite h.isFinite) rfl, height_finite hone]
  obtain ⟨s, hx⟩ | ⟨s, m, e, hm, hx, he⟩ := h
  · rw [height, hx]
    cases s <;> decide
  · have hlt := unpack_finite_lt hx
    obtain ⟨hlo, -, -⟩ := bounds_of_unpack hx
    rw [height_finite hx]
    cases s <;> simp only [Sign.apply] <;> omega

/-- The part of a count that one of it is. -/
theorem one_div_toFloat32 {n : UInt32} (hn : n ≠ 0) : 0 < 1 / n.toFloat32 ∧ 1 / n.toFloat32 ≤ 1 := by
  by_cases hfew : n.toNat < 4
  · have hzero : n.toNat ≠ 0 := fun h => hn (UInt32.toNat_inj.mp h)
    rw [← UInt32.ofNat_toNat (x := n)]
    interval_cases n.toNat
    · exact absurd rfl hzero
    all_goals decide
  · obtain ⟨m, e, hm, hcount, hfull, hlo, hhi⟩ := unpack_toFloat32 (n := n) (by omega)
    have hone : Sized (-23) 1 := ⟨8388608, by decide, rfl⟩
    exact ⟨hone.div ⟨m, hm, hcount⟩ (by omega), (below_one_div hcount hfull hlo hhi).le_one⟩

/-- An average is finite if the sum is. -/
theorem isFinite_average {n : UInt32} (hn : n ≠ 0) (hx : x.isFinite = true) :
    (x * (1 / n.toFloat32)).isFinite = true := by
  obtain ⟨hpos, hle⟩ := one_div_toFloat32 hn
  have hminus : (-1 : Float32) < 0 := by decide
  have hnan := (ne_nan_of_lt hpos).2
  refine isFinite_mul_of_signed hx ((le_iff_height rfl hnan).mpr ?_) hle
  rw [lt_iff_height rfl rfl] at hminus
  rw [lt_iff_height rfl hnan] at hpos
  omega

/-- An average is infinite if the sum is. -/
theorem unpack_average {n : UInt32} (hn : n ≠ 0) (hx : x.toModel.unpack = .infinity .positive) :
    (x * (1 / n.toFloat32)).toModel.unpack = .infinity .positive := by
  obtain ⟨hpos, hle⟩ := one_div_toFloat32 hn
  obtain ⟨e, m, hm, hscale⟩ := exists_sized hpos (isFinite_of_between (le_of_lt hpos) hle rfl rfl)
  show (Float32.Model.pack (UnpackedFloat.mul .binary32 x.toModel.unpack (1 / n.toFloat32).toModel.unpack)).unpack = _
  rw [hx, hscale]
  exact unpack_pack_infinity .positive

end NpcMind.Single
