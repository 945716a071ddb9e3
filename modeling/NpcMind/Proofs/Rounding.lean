import Mathlib
import NpcMind.Proofs.Overflow

/-!
# Arithmetic is monotone

Every finite number is a whole number of the least positive one, and a sum, a difference or a product is the exact result,
moved to a number next to it. Where that lands is found from the exact result alone, whatever the digits and exponents
it came from, and does not get less when the result gets more. So addition, subtraction of a number and multiplication
by one that is not negative keep the order, as they do without rounding.
-/

namespace NpcMind.Single

open Float.Model Float.Model.UnpackedFloat

variable {x y c : Float32} {m n k v w : ℕ} {e f : ℤ} {s t : Sign} {z z' : ℤ}

/-! ### Dropping digits -/

/-- What is left of a number without its last digits: the nearest one, and of two the even one. -/
def nearest (m k : ℕ) : ℕ := (ExtendedMantissa.mk m false false >>> k).roundedMantissa

theorem nearest_zero (m : ℕ) : nearest m 0 = m := rfl

theorem nearest_succ (m k : ℕ) : nearest m (k + 1) = m / 2 ^ k / 2 +
    if m / 2 ^ k % 2 = 0 then 0 else if m % 2 ^ k = 0 then m / 2 ^ k / 2 % 2 else 1 := by
  rw [nearest, shift_succ]
  generalize m / 2 ^ k = a
  generalize m % 2 ^ k = b
  by_cases ha : a % 2 = 0
  · rw [if_pos ha, bne_eq_false_iff_eq.mpr ha]
    cases b != 0 <;> rfl
  · rw [if_neg ha, bne_iff_ne.mpr ha]
    by_cases hb : b = 0
    · rw [if_pos hb, bne_eq_false_iff_eq.mpr hb]
      rfl
    · rw [if_neg hb, bne_iff_ne.mpr hb]
      rfl

theorem nearest_mono (h : m ≤ n) (k : ℕ) : nearest m k ≤ nearest n k := by
  cases k with
  | zero => exact h
  | succ k =>
    have hquot : m / 2 ^ k ≤ n / 2 ^ k := Nat.div_le_div_right h
    have hm := Nat.div_add_mod m (2 ^ k)
    have hn := Nat.div_add_mod n (2 ^ k)
    rw [nearest_succ, nearest_succ]
    rcases hquot.eq_or_lt with heq | hlt
    · -- The digit in question is the same in both, and what comes after it is not less.
      rw [heq] at hm ⊢
      have hrest : m % 2 ^ k ≤ n % 2 ^ k := by omega
      split_ifs <;> omega
    · split_ifs <;> omega

/-- The same number, written with more digits. -/
theorem nearest_scale (m k j : ℕ) : nearest (m * 2 ^ j) (k + j) = nearest m k := by
  have hpow := Nat.two_pow_pos j
  cases k with
  | zero =>
    cases j with
    | zero => rw [pow_zero, mul_one]
    | succ j =>
      have hquot : m * 2 ^ (j + 1) / 2 ^ j = m * 2 := by
        rw [pow_succ', ← mul_assoc, Nat.mul_div_cancel _ (Nat.two_pow_pos j)]
      rw [Nat.zero_add, nearest_succ, hquot, if_pos (Nat.mul_mod_left m 2), nearest_zero]
      omega
  | succ k =>
    have hquot : m * 2 ^ j / 2 ^ (k + j) = m / 2 ^ k := by rw [pow_add, Nat.mul_div_mul_right _ _ hpow]
    have hrest : m * 2 ^ j % 2 ^ (k + j) = m % 2 ^ k * 2 ^ j := by rw [pow_add, Nat.mul_mod_mul_right]
    have hzero : m % 2 ^ k * 2 ^ j = 0 ↔ m % 2 ^ k = 0 := by
      rw [mul_eq_zero, or_iff_left hpow.ne']
    rw [Nat.add_right_comm, nearest_succ, nearest_succ, hquot, hrest]
    simp only [hzero]

theorem nearest_mul_pow (m k : ℕ) : nearest (m * 2 ^ k) k = m := by
  have hscale := nearest_scale m 0 k
  rwa [Nat.zero_add] at hscale

theorem nearest_le (h : m < 2 ^ (k + 24)) : nearest m k ≤ 16777216 := by
  rw [add_comm, pow_add] at h
  exact (nearest_mono h.le k).trans_eq (nearest_mul_pow _ k)

theorem le_nearest (h : 2 ^ (k + 23) ≤ m) : 8388608 ≤ nearest m k := by
  rw [add_comm, pow_add] at h
  exact (nearest_mul_pow _ k).symm.trans_le (nearest_mono h k)

/-! ### Where a number lands -/

/-- How many digits are dropped of a number of parts, of which the least positive number has `2 ^ 149`. -/
def dropped (v : ℕ) : ℕ := max (v.log2 - 23) 149

/-- The reach of the number to which that many parts are rounded; too many are infinite. -/
def landing (v : ℕ) : ℤ := min 2139095040 (((dropped v : ℤ) - 149) * 8388608 + nearest v (dropped v))

theorem landing_zero : landing 0 = 0 := by
  have hnearest : nearest 0 149 = 0 := by
    have hscale := nearest_mul_pow 0 149
    rwa [Nat.zero_mul] at hscale
  rw [landing, show dropped 0 = 149 from rfl, hnearest]
  rfl

theorem nearest_dropped_le (v : ℕ) : nearest v (dropped v) ≤ 16777216 := by
  refine nearest_le ((Nat.lt_log2_self (n := v)).trans_le (Nat.pow_le_pow_right (by decide) ?_))
  unfold dropped
  omega

theorem le_nearest_dropped (h : 149 < dropped v) : 8388608 ≤ nearest v (dropped v) := by
  have hdropped : dropped v + 23 = v.log2 := by
    unfold dropped at h ⊢
    omega
  refine le_nearest ?_
  rw [hdropped]
  refine Nat.log2_self_le fun hzero => ?_
  rw [hzero] at h
  exact absurd h (by decide)

theorem landing_nonneg (v : ℕ) : 0 ≤ landing v := by
  have hle : 149 ≤ dropped v := le_max_right _ _
  unfold landing
  omega

/-- **Rounding is monotone.** -/
theorem landing_mono (h : v ≤ w) : landing v ≤ landing w := by
  have hdropped : dropped v ≤ dropped w := by
    have hlog : v.log2 ≤ w.log2 := log2_mono h
    unfold dropped
    omega
  have hlow : 149 ≤ dropped v := le_max_right _ _
  rcases hdropped.eq_or_lt with heq | hlt
  · have hnearest := nearest_mono h (dropped w)
    rw [landing, landing, heq]
    omega
  · -- With one digit more to drop, the least is what the most with one less becomes.
    have hv := nearest_dropped_le v
    have hw := le_nearest_dropped (v := w) (by omega)
    rw [landing, landing]
    omega

/-- Where a number lands that is given by digits and an exponent. -/
theorem landing_eq (hm : 0 < m) (he : -298 ≤ e) (hle : e ≤ target m e) : landing (m * 2 ^ (e + 298).toNat) =
    min 2139095040 ((target m e + 149) * 8388608 + rounded m e) := by
  have hlog : (m * 2 ^ (e + 298).toNat).log2 = m.log2 + (e + 298).toNat := by
    rw [← Nat.shiftLeft_eq, log2_shiftLeft hm.ne']
  have hdropped : dropped (m * 2 ^ (e + 298).toNat) = (target m e - e).toNat + (e + 298).toNat := by
    rw [dropped, hlog]
    unfold target at hle ⊢
    omega
  have hnearest : nearest (m * 2 ^ (e + 298).toNat) (dropped (m * 2 ^ (e + 298).toNat)) = rounded m e := by
    rw [hdropped, nearest_scale]
    rfl
  rw [landing, hnearest, hdropped]
  omega

/-! ### Rounded and packed -/

/-- What is packed reaches as far as its digits and exponent say, and not beyond the infinity. -/
theorem reach_pack_min (s : Sign) (hm : 0 < m) (hlt : m < 16777216) (he : -149 ≤ e) (hfull : -149 < e → 8388608 ≤ m) :
    reach (Float32.Model.pack (.finite s m e hm)).unpack = min 2139095040 ((e + 149) * 8388608 + m) := by
  have hbias : Format.binary32.exponentBias = 127 := rfl
  have hbits : Format.binary32.mantissaBits = 24 := rfl
  by_cases hbig : 104 < e
  · have hpack : Float32.Model.pack (.finite s m e hm) = Float32.Model.pack (.infinity s) := by
      have hinfinity : UnpackedFloat.pack .binary32 (.finite s m e hm) = UnpackedFloat.pack .binary32 (.infinity s) := by
        unfold UnpackedFloat.pack
        dsimp only
        rw [hbias, if_pos (by show 256 ≤ _; omega)]
      simp only [Float32.Model.pack, hinfinity]
    have hdigits := hfull (by omega)
    rw [hpack, unpack_pack_infinity, reach]
    omega
  by_cases hdigits : 8388608 ≤ m
  · have hlog : m.log2 = 23 := by
      have hlow : 23 ≤ m.log2 := (Nat.le_log2 hm.ne').mpr hdigits
      have hhigh : m.log2 < 24 := (Nat.log2_lt hm.ne').mpr hlt
      omega
    rw [reach_pack s hm hlog he (by omega)]
    omega
  · -- The least exponent is written as zero, and the digits stand as they are.
    have hleast : e = -149 := by omega
    have hlog : m.log2 < 23 := (Nat.log2_lt hm.ne').mpr (by omega)
    refine (unpack_spec (unpack_pack_ne UnpackedFloat.noConfusion)).2.2.trans ?_
    show ((@unpackExponent .binary32 (UnpackedFloat.pack .binary32 (.finite s m e hm))).toNat : ℤ) * 8388608 +
      (@unpackMantissa .binary32 (UnpackedFloat.pack .binary32 (.finite s m e hm))).toNat = _
    unfold UnpackedFloat.pack
    dsimp only
    rw [hbias, hbits, if_neg (by show ¬ 256 ≤ _; omega), if_neg (by omega), unpackExponent_packComponents,
      unpackMantissa_packComponents, BitVec.toNat_ofNat]
    show ((0 : ℕ) : ℤ) * 8388608 + ((m % 8388608 : ℕ) : ℤ) = _
    omega

/-- Rounding gives 24 digits at most, unless it gives the first number with one more. -/
theorem rounded_bounds (a : Accuracy) (hle : e ≤ target m e) :
    (shiftToTargetExponent .binary32 m e a).1.roundedMantissa ≤ 16777216 ∧
      (-149 < target m e → 8388608 ≤ (shiftToTargetExponent .binary32 m e a).1.roundedMantissa) := by
  have hmin : Format.binary32.minExponent = -149 := rfl
  have hbits : Format.binary32.mantissaBits = 24 := rfl
  have hlog := log2_shift .binary32 m e a
  have hshort := log2_shift_lt .binary32 m e a
  rw [hmin, hbits] at hlog
  rw [hbits] at hshort
  generalize (shiftToTargetExponent .binary32 m e a).1 = em at hlog hshort ⊢
  have hup := roundedMantissa_le em
  have hdown := le_roundedMantissa em
  constructor
  · have hlt := (Nat.lt_log2_self (n := em.mantissa)).trans_le (Nat.pow_le_pow_right (by decide) hshort)
    omega
  · intro hlow
    have hfull : em.mantissa.log2 = 23 := by
      unfold target at hle hlow
      omega
    have hne : em.mantissa ≠ 0 := by
      intro hzero
      rw [hzero] at hfull
      cases hfull
    have hdigits := Nat.log2_self_le hne
    rw [hfull] at hdigits
    omega

/-- A number of 24 digits, or the first with one more, moved to an exponent that suits it. -/
theorem shift_again (hle : n ≤ 16777216) (he : -149 ≤ e) :
    n < 16777216 ∧ (shiftToTargetExponent .binary32 n e .exact).1.mantissa = n ∧
      (shiftToTargetExponent .binary32 n e .exact).2 = e ∨
    n = 16777216 ∧ (shiftToTargetExponent .binary32 n e .exact).1.mantissa = 8388608 ∧
      (shiftToTargetExponent .binary32 n e .exact).2 = e + 1 := by
  have hmin : Format.binary32.minExponent = -149 := rfl
  have hbits : Format.binary32.mantissaBits = 24 := rfl
  have hshift : (shiftToTargetExponent .binary32 n e .exact).1 =
      ExtendedMantissa.mk n false false >>> (target n e - e).toNat := rfl
  rw [hshift, exponent_shift, hmin, hbits]
  rcases hle.lt_or_eq with hlt | rfl
  · have hlog : n.log2 ≤ 23 := by
      rcases Nat.eq_zero_or_pos n with rfl | hn
      · decide
      · exact Nat.le_of_lt_succ ((Nat.log2_lt hn.ne').mpr hlt)
    have hzero : (target n e - e).toNat = 0 := by
      unfold target
      omega
    rw [hzero]
    exact .inl ⟨hlt, rfl, by omega⟩
  · have hlog : Nat.log2 16777216 = 24 := by decide
    have hone : (target 16777216 e - e).toNat = 1 := by
      unfold target
      omega
    rw [hone, hlog]
    exact .inr ⟨rfl, rfl, by omega⟩

/-- **The reach of what was rounded**, whether it has all its digits, is as small as can be, or overflows. -/
theorem reach_round (s : Sign) (a : Accuracy) (hle : e ≤ target m e) :
    reach (Float32.Model.pack (roundWithAccuracy .binary32 s m e a)).unpack = min 2139095040
      ((target m e + 149) * 8388608 + (shiftToTargetExponent .binary32 m e a).1.roundedMantissa) := by
  obtain ⟨hhigh, hlow⟩ := rounded_bounds a hle
  have hmin : Format.binary32.minExponent = -149 := rfl
  have hbits : Format.binary32.mantissaBits = 24 := rfl
  have hleast : -149 ≤ target m e := le_max_right _ _
  have hfirst : (shiftToTargetExponent .binary32 m e a).2 = target m e := by
    rw [exponent_shift, hmin, hbits]
    unfold target at hle ⊢
    omega
  unfold roundWithAccuracy
  dsimp only
  rw [hfirst]
  generalize (shiftToTargetExponent .binary32 m e a).1.roundedMantissa = n at hhigh hlow ⊢
  have hsecond := shift_again hhigh hleast
  split
  · next hzero =>
    rw [unpack_pack_zero]
    show (0 : ℤ) = _
    omega
  · next hne =>
    obtain ⟨hlt, hdigits, hexponent⟩ | ⟨heq, hdigits, hexponent⟩ := hsecond
    · rw [reach_pack_min s _ (by omega) (by omega) (by omega), hdigits, hexponent]
    · rw [reach_pack_min s _ (by omega) (by omega) (by omega), hdigits, hexponent, heq]
      omega

/-! ### Exact results -/

/-- The height of the number to which that many parts are rounded, to either side of zero. -/
def landed (z : ℤ) : ℤ := z.sign * landing z.natAbs

theorem landed_zero : landed 0 = 0 := by
  rw [landed, Int.sign_zero, zero_mul]

theorem landed_apply (s : Sign) (v : ℕ) : landed (s.apply v) = s.apply (landing v) := by
  rcases Nat.eq_zero_or_pos v with rfl | hv
  · cases s <;> simp [Sign.apply, landed_zero, landing_zero]
  · have hsign : (v : ℤ).sign = 1 := Int.sign_eq_one_of_pos (by omega)
    cases s with
    | positive =>
      show (v : ℤ).sign * landing (v : ℤ).natAbs = landing v
      rw [hsign, one_mul, Int.natAbs_natCast]
    | negative =>
      show (-(v : ℤ)).sign * landing (-(v : ℤ)).natAbs = -landing v
      rw [Int.sign_neg, hsign, Int.natAbs_neg, Int.natAbs_natCast, neg_one_mul]

/-- **Rounding is monotone**, on both sides of zero. -/
theorem landed_mono (h : z ≤ z') : landed z ≤ landed z' := by
  obtain ⟨v, hv⟩ : ∃ v : ℕ, z = Sign.positive.apply v ∨ z = Sign.negative.apply v := ⟨z.natAbs, by
    simp only [Sign.apply]
    omega⟩
  obtain ⟨w, hw⟩ : ∃ w : ℕ, z' = Sign.positive.apply w ∨ z' = Sign.negative.apply w := ⟨z'.natAbs, by
    simp only [Sign.apply]
    omega⟩
  have hv0 := landing_nonneg v
  have hw0 := landing_nonneg w
  rcases hv with rfl | rfl <;> rcases hw with rfl | rfl <;> rw [landed_apply, landed_apply] <;>
    simp only [Sign.apply] at h ⊢
  · exact landing_mono (by omega)
  · obtain ⟨rfl, rfl⟩ : v = 0 ∧ w = 0 := by omega
    rw [landing_zero, neg_zero]
  · omega
  · exact Int.neg_le_neg (landing_mono (by omega))

theorem level_eq_apply (u : UnpackedFloat) : level u = (signOf u).apply (reach u) := by
  unfold level
  cases signOf u <;> rfl

theorem level_pack_zero (s : Sign) : level (Float32.Model.pack (.zero s)).unpack = 0 := by
  rw [unpack_pack_zero]
  cases s <;> rfl

theorem level_round (s : Sign) (hm : 0 < m) (he : -298 ≤ e) (hle : e ≤ target m e) :
    level (Float32.Model.pack (roundWithAccuracy .binary32 s m e .exact)).unpack =
      landed (s.apply (m * 2 ^ (e + 298).toNat : ℕ)) := by
  rw [level_eq_apply, signOf_pack (round_ne _ _ _ _ _), signOf_round, reach_round s .exact hle, landed_apply,
    landing_eq hm he hle]
  rfl

theorem level_round_shifted (s : Sign) (hm : 0 < m) (he : -149 ≤ e) :
    level (Float32.Model.pack (UnpackedFloat.round .binary32 s m e)).unpack =
      landed (s.apply (m * 2 ^ (e + 298).toNat : ℕ)) := by
  unfold UnpackedFloat.round decreaseExponent
  dsimp only
  have htarget : Format.targetExponent .binary32 (totalExponent m e) = target m e := rfl
  have hlow : -149 ≤ target m e := le_max_right _ _
  rw [htarget]
  generalize hj : (e - target m e).toNat = j
  have hagain : target (m <<< j) (e - j) = target m e := by
    unfold target
    rw [log2_shiftLeft hm.ne']
    omega
  have hparts : m <<< j * 2 ^ (e - j + 298).toNat = m * 2 ^ (e + 298).toNat := by
    rw [Nat.shiftLeft_eq, mul_assoc, ← pow_add]
    congr 2
    omega
  rw [level_round s (Nat.shiftLeft_pos_iff.mpr hm) (by omega) (by omega), hparts]

theorem level_normalize (z : ℤ) (s : Sign) (he : -149 ≤ e) :
    level (Float32.Model.pack (UnpackedFloat.normalize .binary32 z e s)).unpack =
      landed (z * 2 ^ (e + 298).toNat) := by
  unfold UnpackedFloat.normalize
  split
  · next h =>
    have hneg := Std.compare_eq_lt.mp h
    rw [level_round_shifted _ (by omega) he]
    congr 1
    show -(((-z).toNat * 2 ^ (e + 298).toNat : ℕ) : ℤ) = _
    rw [Nat.cast_mul, Int.toNat_of_nonneg (by omega)]
    push_cast
    ring
  · next h =>
    rw [compare_eq_iff_eq.mp h, zero_mul, landed_zero]
    exact level_pack_zero s
  · next h =>
    have hpos := Std.compare_eq_gt.mp h
    rw [level_round_shifted _ (by omega) he]
    congr 1
    show ((z.toNat * 2 ^ (e + 298).toNat : ℕ) : ℤ) = _
    rw [Nat.cast_mul, Int.toNat_of_nonneg (by omega)]
    push_cast
    ring

/-! ### The operations -/

/-- An unpacked number, counted in the least positive ones. -/
def count : UnpackedFloat → ℤ
  | .finite s m e _ => s.apply (m * 2 ^ (e + 149).toNat : ℕ)
  | _ => 0

theorem apply_mul (s : Sign) (a b : ℤ) : s.apply a * b = s.apply (a * b) := by
  cases s
  · exact neg_mul a b
  · rfl

/-- A number with its exponent lowered, in parts. -/
theorem aligned (s : Sign) (m : ℕ) {d : ℤ} (hd : -149 ≤ d) (hde : d ≤ e) :
    s.apply (m <<< (e - d).toNat : ℕ) * 2 ^ (d + 298).toNat = s.apply (m * 2 ^ (e + 149).toNat : ℕ) * 2 ^ 149 := by
  have hparts : m <<< (e - d).toNat * 2 ^ (d + 298).toNat = m * 2 ^ (e + 149).toNat * 2 ^ 149 := by
    rw [Nat.shiftLeft_eq, mul_assoc, mul_assoc, ← pow_add, ← pow_add]
    congr 2
    omega
  rw [apply_mul, apply_mul]
  exact_mod_cast congrArg (fun v : ℕ => s.apply v) hparts

variable {u u' : UnpackedFloat}

/-- **What is exact already** stays as it is. -/
theorem level_canonical (hu : Canonical u) (hfinite : u.isFinite = true) : level u = landed (count u * 2 ^ 149) := by
  cases u with
  | notANumber | infinity => cases hfinite
  | zero s =>
    show _ = landed (0 * 2 ^ 149)
    rw [zero_mul, landed_zero]
    cases s <;> rfl
  | finite s m e hm =>
    obtain ⟨hlow, hhigh, hlt, hfull⟩ := hu
    have htarget : target m e = e := by
      have hlog : m.log2 ≤ 23 := Nat.le_of_lt_succ ((Nat.log2_lt hm.ne').mpr hlt)
      have hdigits : -149 < e → 23 ≤ m.log2 := fun h => (Nat.le_log2 hm.ne').mpr (hfull h)
      unfold target
      omega
    have hrounded : rounded m e = m := by
      rw [rounded, htarget, sub_self]
      rfl
    have hparts := aligned s m hlow le_rfl
    rw [sub_self, Int.toNat_zero, Nat.shiftLeft_zero] at hparts
    have hlanding := landing_eq (m := m) (e := e) hm (by omega) htarget.ge
    rw [htarget, hrounded] at hlanding
    rw [count, ← hparts, apply_mul, level_eq_apply]
    have hcast : (m : ℤ) * 2 ^ (e + 298).toNat = (m * 2 ^ (e + 298).toNat : ℕ) := by push_cast; rfl
    rw [hcast, landed_apply, hlanding]
    show s.apply ((e + 149) * 8388608 + m) = _
    congr 1
    omega

/-- What is packed comes back. -/
theorem level_pack (hu : Canonical u) (hfinite : u.isFinite = true) :
    level (Float32.Model.pack u).unpack = level u := by
  cases u with
  | notANumber | infinity => cases hfinite
  | zero s => rw [unpack_pack_zero]
  | finite s m e hm =>
    obtain ⟨hlow, hhigh, hlt, hfull⟩ := hu
    rw [level_eq_apply, signOf_pack UnpackedFloat.noConfusion, reach_pack_min s hm hlt hlow hfull, level_eq_apply]
    show s.apply _ = s.apply ((e + 149) * 8388608 + m)
    congr 1
    omega

/-- **A sum** is the exact one, rounded. -/
theorem level_add (hu : Canonical u) (hu' : Canonical u') (hfinite : u.isFinite = true) (hfinite' : u'.isFinite = true) :
    level (Float32.Model.pack (u.add .binary32 u')).unpack = landed ((count u + count u') * 2 ^ 149) := by
  cases u with
  | notANumber | infinity => cases hfinite
  | zero s =>
    show _ = landed ((0 + count u') * 2 ^ 149)
    rw [zero_add]
    cases u' with
    | notANumber | infinity => cases hfinite'
    | zero t =>
      show _ = landed (0 * 2 ^ 149)
      rw [zero_mul, landed_zero]
      cases s <;> cases t <;> rfl
    | finite t n f hn => exact (level_pack hu' rfl).trans (level_canonical hu' rfl)
  | finite s m e hm =>
    cases u' with
    | notANumber | infinity => cases hfinite'
    | zero t =>
      show _ = landed ((count (.finite s m e hm) + 0) * 2 ^ 149)
      rw [add_zero]
      exact (level_pack hu rfl).trans (level_canonical hu rfl)
    | finite t n f hn =>
      have hlow := hu.1
      have hlow' := hu'.1
      refine (level_normalize _ .positive (e := min e f) (by omega)).trans ?_
      rw [add_mul, aligned s m (by omega) (min_le_left e f), aligned t n (by omega) (min_le_right e f), ← add_mul]
      rfl

theorem apply_neg (s : Sign) (a : ℤ) : (-s).apply a = -s.apply a := by
  cases s
  · exact (neg_neg a).symm
  · rfl

theorem sub_eq_add_neg (u u' : UnpackedFloat) : u.sub .binary32 u' = u.add .binary32 u'.neg := by
  cases u with
  | finite s m e hm =>
    cases u' with
    | finite t n f hn =>
      unfold UnpackedFloat.sub UnpackedFloat.neg UnpackedFloat.add
      dsimp only
      rw [apply_neg, ← Int.sub_eq_add_neg]
    | _ => rfl
  | _ => cases u' <;> rfl

theorem count_neg (u : UnpackedFloat) : count u.neg = -count u := by
  cases u with
  | finite s m e hm => exact apply_neg s _
  | _ => rfl

/-- **A difference** is the exact one, rounded. -/
theorem level_sub (hu : Canonical u) (hu' : Canonical u') (hfinite : u.isFinite = true) (hfinite' : u'.isFinite = true) :
    level (Float32.Model.pack (u.sub .binary32 u')).unpack = landed ((count u - count u') * 2 ^ 149) := by
  have hneg : Canonical u'.neg ∧ u'.neg.isFinite = true := by
    cases u' with
    | notANumber | infinity => cases hfinite'
    | zero t => exact ⟨trivial, rfl⟩
    | finite t n f hn => exact ⟨hu', rfl⟩
  rw [sub_eq_add_neg, level_add hu hneg.1 hfinite hneg.2, count_neg, ← Int.sub_eq_add_neg]

/-- **A product** is the exact one, rounded. -/
theorem level_mul (hu : Canonical u) (hu' : Canonical u') (hfinite : u.isFinite = true) (hfinite' : u'.isFinite = true) :
    level (Float32.Model.pack (u.mul .binary32 u')).unpack = landed (count u * count u') := by
  cases u with
  | notANumber | infinity => cases hfinite
  | zero s =>
    show _ = landed (0 * count u')
    rw [zero_mul, landed_zero]
    cases u' with
    | notANumber | infinity => cases hfinite'
    | zero t | finite t => exact level_pack_zero (s * t)
  | finite s m e hm =>
    cases u' with
    | notANumber | infinity => cases hfinite'
    | zero t =>
      show _ = landed (_ * 0)
      rw [mul_zero, landed_zero]
      exact level_pack_zero (s * t)
    | finite t n f hn =>
      obtain ⟨hlow, -, -, hfull⟩ := hu
      obtain ⟨hlow', -, -, hfull'⟩ := hu'
      -- One factor that has all its digits is enough, and without one both exponents are the least.
      have hdigits : -149 < e ∨ -149 < f → 23 ≤ (m * n).log2 := by
        rintro (he | hf)
        · exact (Nat.le_log2 (Nat.mul_pos hm hn).ne').mpr ((hfull he).trans (Nat.le_mul_of_pos_right m hn))
        · exact (Nat.le_log2 (Nat.mul_pos hm hn).ne').mpr ((hfull' hf).trans (Nat.le_mul_of_pos_left n hm))
      refine (level_round (s * t) (Nat.mul_pos hm hn) (by omega) (by unfold target; omega)).trans ?_
      have hparts : m * n * 2 ^ (e + f + 298).toNat = m * 2 ^ (e + 149).toNat * (n * 2 ^ (f + 149).toNat) := by
        rw [mul_mul_mul_comm, ← pow_add]
        congr 2
        omega
      rw [hparts, Nat.cast_mul]
      congr 1
      show _ = s.apply _ * t.apply _
      cases s <;> cases t <;> simp only [Sign.apply]
      · exact (neg_mul_neg _ _).symm
      · exact (neg_mul _ _).symm
      · exact (mul_neg _ _).symm

/-- Numbers at one height are one number, or both of them zeros. -/
theorem count_eq_of_level_eq (hu : Canonical u) (hu' : Canonical u') (hfinite : u.isFinite = true)
    (hfinite' : u'.isFinite = true) (h : level u = level u') : count u = count u' := by
  rw [level_eq_apply, level_eq_apply] at h
  cases u with
  | notANumber | infinity => cases hfinite
  | zero s =>
    cases u' with
    | notANumber | infinity => cases hfinite'
    | zero t => rfl
    | finite t n f hn =>
      obtain ⟨hlow', -⟩ := hu'
      cases s <;> cases t <;> simp only [signOf, reach, Sign.apply] at h <;> omega
  | finite s m e hm =>
    obtain ⟨hlow, -, hlt, hfull⟩ := hu
    cases u' with
    | notANumber | infinity => cases hfinite'
    | zero t => cases s <;> cases t <;> simp only [signOf, reach, Sign.apply] at h <;> omega
    | finite t n f hn =>
      obtain ⟨hlow', -, hlt', hfull'⟩ := hu'
      obtain ⟨rfl, rfl, rfl⟩ : s = t ∧ m = n ∧ e = f := by
        cases s <;> cases t <;> simp only [signOf, reach, Sign.apply] at h <;> simp <;> omega
      rfl

theorem count_le_of_level_le (hu : Canonical u) (hu' : Canonical u') (hfinite : u.isFinite = true)
    (hfinite' : u'.isFinite = true) (h : level u ≤ level u') : count u ≤ count u' := by
  by_contra hlt
  have hparts : count u' * 2 ^ 149 ≤ count u * 2 ^ 149 := by omega
  have hlanded := landed_mono hparts
  rw [← level_canonical hu hfinite, ← level_canonical hu' hfinite'] at hlanded
  exact hlt (count_eq_of_level_eq hu hu' hfinite hfinite' (le_antisymm h hlanded)).le

/-! ### The order of results -/

/-- A finite number, counted in the least positive ones. -/
def units (x : Float32) : ℤ := count x.toModel.unpack

theorem canonical_unpack (hx : x.isFinite = true) : Canonical x.toModel.unpack :=
  (unpack_spec (isNaN_eq_false.mp (isNaN_of_isFinite hx))).1

theorem units_mono (hx : x.isFinite = true) (hy : y.isFinite = true) (h : x ≤ y) : units x ≤ units y :=
  count_le_of_level_le (canonical_unpack hx) (canonical_unpack hy) hx hy
    ((le_iff_height (isNaN_of_isFinite hx) (isNaN_of_isFinite hy)).mp h)

theorem height_units (hx : x.isFinite = true) : height x = landed (units x * 2 ^ 149) :=
  level_canonical (canonical_unpack hx) hx

theorem height_add (hx : x.isFinite = true) (hy : y.isFinite = true) :
    height (x + y) = landed ((units x + units y) * 2 ^ 149) :=
  level_add (canonical_unpack hx) (canonical_unpack hy) hx hy

theorem height_sub (hx : x.isFinite = true) (hy : y.isFinite = true) :
    height (x - y) = landed ((units x - units y) * 2 ^ 149) :=
  level_sub (canonical_unpack hx) (canonical_unpack hy) hx hy

theorem height_mul (hx : x.isFinite = true) (hy : y.isFinite = true) : height (x * y) = landed (units x * units y) :=
  level_mul (canonical_unpack hx) (canonical_unpack hy) hx hy

variable {x' y' : Float32}

/-- **Sums keep the order** of their summands. -/
theorem sum_mono (hx : x.isFinite = true) (hx' : x'.isFinite = true) (hy : y.isFinite = true) (hy' : y'.isFinite = true)
    (hxx : x ≤ x') (hyy : y ≤ y') : x + y ≤ x' + y' := by
  rw [le_iff_height (isNaN_add (isNaN_of_isFinite hx) hy) (isNaN_add (isNaN_of_isFinite hx') hy'), height_add hx hy,
    height_add hx' hy']
  have hunits := units_mono hx hx' hxx
  have hunits' := units_mono hy hy' hyy
  exact landed_mono (by omega)

theorem isNaN_difference (hx : x.isFinite = true) (hy : y.isFinite = true) : (x - y).isNaN = false := by
  refine isNaN_pack (u := x.toModel.unpack.sub .binary32 y.toModel.unpack) ?_
  rw [sub_eq_add_neg]
  refine add_ne _ (isNaN_eq_false.mp (isNaN_of_isFinite hx)) ?_
  obtain ⟨t, hy⟩ | ⟨t, n, f, hn, hy⟩ := isFinite_iff.mp hy <;> rw [hy] <;> rfl

/-- **Differences keep the order** of what a number is taken from. -/
theorem difference_mono (hx : x.isFinite = true) (hx' : x'.isFinite = true) (hy : y.isFinite = true) (hxx : x ≤ x') :
    x - y ≤ x' - y := by
  rw [le_iff_height (isNaN_difference hx hy) (isNaN_difference hx' hy), height_sub hx hy, height_sub hx' hy]
  have hunits := units_mono hx hx' hxx
  exact landed_mono (by omega)

theorem isNaN_product (hx : x.isFinite = true) (hy : y.isFinite = true) : (x * y).isNaN = false := by
  refine isNaN_pack (u := x.toModel.unpack.mul .binary32 y.toModel.unpack) ?_
  obtain ⟨s, hx⟩ | ⟨s, m, e, hm, hx⟩ := isFinite_iff.mp hx <;>
    obtain ⟨t, hy⟩ | ⟨t, n, f, hn, hy⟩ := isFinite_iff.mp hy <;> rw [hx, hy]
  · exact UnpackedFloat.noConfusion
  · exact UnpackedFloat.noConfusion
  · exact UnpackedFloat.noConfusion
  · exact round_ne _ _ _ _ _

theorem units_nonneg (hx : x.isFinite = true) (h : 0 ≤ x) : 0 ≤ units x := units_mono (x := 0) rfl hx h

/-- **Products keep the order** of one factor, if the other is not negative. -/
theorem product_mono (hx : x.isFinite = true) (hx' : x'.isFinite = true) (hy : y.isFinite = true) (hxx : x ≤ x')
    (h : 0 ≤ y) : x * y ≤ x' * y := by
  rw [le_iff_height (isNaN_product hx hy) (isNaN_product hx' hy), height_mul hx hy, height_mul hx' hy]
  exact landed_mono (mul_le_mul_of_nonneg_right (units_mono hx hx' hxx) (units_nonneg hy h))

theorem product_nonneg (hx : x.isFinite = true) (hy : y.isFinite = true) (hx0 : 0 ≤ x) (hy0 : 0 ≤ y) : 0 ≤ x * y := by
  rw [le_iff_height rfl (isNaN_product hx hy), height_mul hx hy]
  exact landed_zero.ge.trans (landed_mono (mul_nonneg (units_nonneg hx hx0) (units_nonneg hy hy0)))

/-- What is not negative does not take away. -/
theorem le_sum (hx : x.isFinite = true) (hy : y.isFinite = true) (h : 0 ≤ y) : x ≤ x + y := by
  rw [le_iff_height (isNaN_of_isFinite hx) (isNaN_add (isNaN_of_isFinite hx) hy), height_units hx, height_add hx hy]
  have hunits := units_nonneg hy h
  exact landed_mono (by omega)

/-- A number less itself is zero. -/
theorem beq_difference_self (hx : x.isFinite = true) : (x - x == 0) = true := by
  have hnan := isNaN_difference hx hx
  rw [beq_iff_le, le_iff_height hnan rfl, le_iff_height rfl hnan, height_sub hx hx, sub_self, zero_mul, landed_zero]
  decide

end NpcMind.Single
