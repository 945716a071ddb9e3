import Mathlib
import NpcMind.Proofs.Order
import NpcMind.Proofs.Products

/-!
# Sums and the portions of their summands

A sum that is positive has a positive summand, and one of about its size: a sum of two has at most two binary digits
more than the larger one, and negative summands only take away. So a summand of that size divided by the sum does
not vanish, however small both of them are.
-/

namespace NpcMind.Single

open Float.Model Float.Model.UnpackedFloat

variable {x y : Float32} {e f : ℤ}

/-- A positive number with that exponent. -/
def Sized (e : ℤ) (x : Float32) : Prop := ∃ m hm, x.toModel.unpack = .finite .positive m e hm

theorem pos_iff_height (hx : x.isNaN = false) : 0 < x ↔ 0 < height x := lt_iff_height rfl hx

theorem exists_sized (hpos : 0 < x) (hfinite : x.isFinite = true) : ∃ e, Sized e x := by
  have hlt := lt_iff_compare.mp hpos
  rw [show (0 : Float32).toModel.unpack = .zero .positive from rfl] at hlt
  obtain ⟨s, hx⟩ | ⟨s, m, e, hm, hx⟩ := isFinite_iff.mp hfinite
  · rw [hx] at hlt
    cases hlt
  · rw [hx] at hlt
    cases s with
    | positive => exact ⟨e, m, hm, hx⟩
    | negative => cases hlt

theorem canonical_of_unpack {m : ℕ} {s : Sign} {hm : 0 < m} (h : x.toModel.unpack = .finite s m e hm) :
    Canonical (.finite s m e hm) := by
  rw [← h]
  refine (unpack_spec fun hnan => ?_).1
  have hx : x.toModel.unpack = .notANumber := hnan
  rw [h] at hx
  cases hx

/-- What is unpacked has an exponent within limits and at most 24 digits. -/
theorem bounds_of_unpack {m : ℕ} {s : Sign} {hm : 0 < m} (h : x.toModel.unpack = .finite s m e hm) :
    -149 ≤ e ∧ e ≤ 104 ∧ m.log2 < 24 := by
  obtain ⟨hlo, hhi, hlt, -⟩ := canonical_of_unpack h
  exact ⟨hlo, hhi, (Nat.log2_lt hm.ne').mpr hlt⟩

/-! ### Signs and exponents of what is packed -/

theorem unpackSign_pack {u : UnpackedFloat} (hu : u ≠ .notANumber) :
    @unpackSign .binary32 (UnpackedFloat.pack .binary32 u) = (signOf u).toBitVec := by
  cases u with
  | notANumber => exact absurd rfl hu
  | infinity s | zero s => exact unpackSign_packComponents s _ _
  | finite s m e hm =>
    unfold UnpackedFloat.pack
    dsimp only
    split
    · exact unpackSign_packComponents s _ _
    · split <;> exact unpackSign_packComponents s _ _

theorem signOf_pack {u : UnpackedFloat} (hu : u ≠ .notANumber) :
    signOf (Float32.Model.pack u).unpack = signOf u := by
  obtain ⟨-, hsign, -⟩ := unpack_spec (unpack_pack_ne hu)
  refine hsign.trans ?_
  show Sign.ofBitVec (@unpackSign .binary32 (UnpackedFloat.pack .binary32 u)) = _
  rw [unpackSign_pack hu, Sign.ofBitVec_toBitVec]

/-- What is packed to a positive number was one. -/
theorem Sized.of_pack {u : UnpackedFloat} (h : Sized e (.ofModel (Float32.Model.pack u))) :
    ∃ n f hn, u = .finite .positive n f hn ∧ e ≤ max f (-149) := by
  obtain ⟨m, hm, h⟩ := h
  have hpack : (Float32.Model.pack u).unpack = .finite .positive m e hm := h
  cases u with
  | notANumber => cases hpack
  | infinity s =>
    rw [unpack_pack_infinity] at hpack
    cases hpack
  | zero s =>
    rw [unpack_pack_zero] at hpack
    cases hpack
  | finite s n f hn =>
    have hsign := signOf_pack (u := .finite s n f hn) UnpackedFloat.noConfusion
    rw [hpack] at hsign
    obtain rfl : Sign.positive = s := hsign
    refine ⟨n, f, hn, rfl, ?_⟩
    by_cases hf : f ≤ 104
    · have hwithin := within_pack (u := .finite .positive n f hn) (k := max f (-149))
        (.inr ⟨_, n, f, hn, rfl, le_max_left _ _⟩) (le_max_right _ _) (by omega)
      rw [hpack] at hwithin
      obtain ⟨s, hzero⟩ | ⟨s, n', f', hn', heq, hle⟩ := hwithin
      · cases hzero
      · cases heq
        exact hle
    · have hle := (bounds_of_unpack h).2.1
      omega

/-- What is packed is positive if its digits and its exponent are in range. -/
theorem pos_pack {n : ℕ} (hn : 0 < n) (hlog : n.log2 < 24) (he : -149 ≤ e) :
    0 < Float32.ofModel (Float32.Model.pack (.finite .positive n e hn)) := by
  have hne : UnpackedFloat.finite .positive n e hn ≠ .notANumber := UnpackedFloat.noConfusion
  obtain ⟨-, -, hreach⟩ := unpack_spec (unpack_pack_ne hne)
  rw [pos_iff_height (isNaN_pack hne)]
  have hheight : height (.ofModel (Float32.Model.pack (.finite .positive n e hn))) =
      reach (Float32.Model.pack (.finite .positive n e hn)).unpack := by
    show level (Float32.Model.pack (.finite .positive n e hn)).unpack = _
    rw [level, signOf_pack hne]
    rfl
  rw [hheight]
  refine lt_of_lt_of_eq ?_ hreach.symm
  show (0 : ℤ) <
    (@unpackExponent .binary32 (UnpackedFloat.pack .binary32 (.finite .positive n e hn))).toNat * 8388608 +
    (@unpackMantissa .binary32 (UnpackedFloat.pack .binary32 (.finite .positive n e hn))).toNat
  have hbias : Format.binary32.exponentBias = 127 := rfl
  have hbits : Format.binary32.mantissaBits = 24 := rfl
  unfold UnpackedFloat.pack
  dsimp only
  rw [hbias, hbits]
  split
  · show (0 : ℤ) < (@unpackExponent .binary32 (packComponents .binary32 .positive _ _)).toNat * 8388608 + _
    rw [unpackExponent_packComponents, show (-1#8).toNat = 255 from rfl]
    omega
  · next hsmall =>
    split
    · rw [unpackExponent_packComponents, BitVec.toNat_ofNat, Nat.mod_eq_of_lt (by omega)]
      omega
    · next hshort =>
      rw [unpackMantissa_packComponents, BitVec.toNat_ofNat, Nat.mod_eq_of_lt]
      · omega
      · exact (Nat.log2_lt hn.ne').mp (by omega)

/-! ### Sums -/

theorem of_normalize {z k : ℤ} {s : Sign} {n : ℕ} {hn : 0 < n}
    (h : UnpackedFloat.normalize .binary32 z k s = .finite .positive n f hn) :
    0 < z ∧ f ≤ max k (max (k + z.toNat.log2 - 23) (-149)) + 1 := by
  have hmin : Format.binary32.minExponent = -149 := rfl
  have hbits : Format.binary32.mantissaBits = 24 := rfl
  unfold UnpackedFloat.normalize at h
  split at h
  · have hsign := congrArg signOf h
    unfold UnpackedFloat.round at hsign
    dsimp only at hsign
    rw [signOf_round] at hsign
    cases hsign
  · cases h
  · next hz =>
    have hpos := Std.compare_eq_gt.mp hz
    refine ⟨hpos, ?_⟩
    unfold UnpackedFloat.round decreaseExponent at h
    dsimp only at h
    obtain hzero | ⟨m, g, hm, hfinite, hle⟩ := round_cases .binary32 .positive
      (z.toNat <<< (k - Format.targetExponent .binary32 (totalExponent z.toNat k)).toNat)
      (k - (k - Format.targetExponent .binary32 (totalExponent z.toNat k)).toNat) .exact
    · rw [hzero] at h
      cases h
    · rw [hfinite] at h
      cases h
      rw [log2_shiftLeft (by omega)] at hle
      omega

/-- A sum is one of its summands, where the other is a zero, or both of them are finite. -/
theorem add_cases {u v : UnpackedFloat} {s : Sign} {n : ℕ} {hn : 0 < n} (h : u.add .binary32 v = .finite s n f hn) :
    u = .finite s n f hn ∨ v = .finite s n f hn ∨ ∃ s₁ m₁ e₁ hm₁ s₂ m₂ e₂ hm₂,
      u = .finite s₁ m₁ e₁ hm₁ ∧ v = .finite s₂ m₂ e₂ hm₂ := by
  cases u with
  | notANumber => cases h
  | infinity s =>
    cases v with
    | infinity t => cases s <;> cases t <;> cases h
    | _ => cases h
  | zero s =>
    cases v with
    | zero t => cases s <;> cases t <;> cases h
    | finite => exact .inr (.inl h)
    | _ => cases h
  | finite s₁ m₁ e₁ hm₁ =>
    cases v with
    | zero t => exact .inl h
    | finite s₂ m₂ e₂ hm₂ => exact .inr (.inr ⟨s₁, m₁, e₁, hm₁, s₂, m₂, e₂, hm₂, rfl, rfl⟩)
    | _ => cases h

/-- The sum of two finite numbers is positive only if one of them is, and is not much larger. -/
theorem of_add_finite {s t : Sign} {m n p : ℕ} {k l g : ℤ} {hm : 0 < m} {hp : 0 < p} {hn : 0 < n} (hk : -149 ≤ k)
    (hl : -149 ≤ l) (hmlog : m.log2 < 24) (hplog : p.log2 < 24)
    (h : UnpackedFloat.add .binary32 (.finite s m k hm) (.finite t p l hp) = .finite .positive n g hn) :
    s = .positive ∧ g ≤ k + 2 ∨ t = .positive ∧ g ≤ l + 2 := by
  -- Both are written with the lesser exponent; `a` and `b` are their mantissas then.
  obtain ⟨a, ha⟩ : ∃ a, a = m <<< (k - min k l).toNat := ⟨_, rfl⟩
  obtain ⟨b, hb⟩ : ∃ b, b = p <<< (l - min k l).toNat := ⟨_, rfl⟩
  have hsum : UnpackedFloat.normalize .binary32 (s.apply a + t.apply b) (min k l) .positive =
      .finite .positive n g hn := by
    rw [ha, hb]
    exact h
  have halog := log2_shiftLeft hm.ne' (k - min k l).toNat
  have hblog := log2_shiftLeft hp.ne' (l - min k l).toNat
  rw [← ha] at halog
  rw [← hb] at hblog
  obtain ⟨hpos, hg⟩ := of_normalize hsum
  cases s <;> cases t <;> simp only [Sign.apply] at hpos hg
  · omega
  · have hlog := log2_mono (show (-(a : ℤ) + b).toNat ≤ b by omega)
    exact .inr ⟨rfl, by omega⟩
  · have hlog := log2_mono (show ((a : ℤ) + -b).toNat ≤ a by omega)
    exact .inl ⟨rfl, by omega⟩
  · have hlog := log2_add_le a b
    rw [show ((a : ℤ) + b).toNat = a + b by omega] at hg
    by_cases hkl : k ≤ l
    · exact .inr ⟨rfl, by omega⟩
    · exact .inl ⟨rfl, by omega⟩

/-- **A positive sum of two has a positive summand of about its size.** -/
theorem Sized.of_add (h : Sized e (x + y)) : ∃ f, e ≤ f + 2 ∧ (Sized f x ∨ Sized f y) := by
  obtain ⟨n, g, hn, hadd, hle⟩ :=
    Sized.of_pack (u := UnpackedFloat.add .binary32 x.toModel.unpack y.toModel.unpack) h
  obtain hx | hy | ⟨s, m, k, hm, t, p, l, hp, hx, hy⟩ := add_cases hadd
  · have hbounds := bounds_of_unpack hx
    exact ⟨g, by omega, .inl ⟨n, hn, hx⟩⟩
  · have hbounds := bounds_of_unpack hy
    exact ⟨g, by omega, .inr ⟨n, hn, hy⟩⟩
  · rw [hx, hy] at hadd
    obtain ⟨hk, -, hmlog⟩ := bounds_of_unpack hx
    obtain ⟨hl, -, hplog⟩ := bounds_of_unpack hy
    obtain ⟨rfl, hg⟩ | ⟨rfl, hg⟩ := of_add_finite hk hl hmlog hplog hadd
    · exact ⟨k, by omega, .inl ⟨m, hm, hx⟩⟩
    · exact ⟨l, by omega, .inr ⟨p, hp, hy⟩⟩

/-- **So has any sum**, with two more digits for each summand. -/
theorem Sized.of_foldl {l : List Float32} (h : Sized e (l.foldl (· + ·) x)) :
    ∃ f, e ≤ f + 2 * l.length ∧ (Sized f x ∨ ∃ p ∈ l, Sized f p) := by
  -- The sum so far counts as a summand; when it has one itself, the digits of the later additions are added.
  induction l generalizing x with
  | nil => exact ⟨e, by simp, .inl h⟩
  | cons p l ih =>
    obtain ⟨f, hf, hsum | ⟨q, hq, hsized⟩⟩ := ih h
    · obtain ⟨g, hg, hx | hp⟩ := hsum.of_add
      · exact ⟨g, by rw [List.length_cons]; omega, .inl hx⟩
      · exact ⟨g, by rw [List.length_cons]; omega, .inr ⟨p, List.mem_cons_self, hp⟩⟩
    · exact ⟨f, by rw [List.length_cons]; omega, .inr ⟨q, List.mem_cons_of_mem p hq, hsized⟩⟩

/-! ### Quotients -/

theorem log2_shift (spec : Format) (m : ℕ) (e : ℤ) (a : Accuracy) :
    (shiftToTargetExponent spec m e a).1.mantissa.log2 =
      m.log2 - (max (m.log2 + 1 + e - spec.mantissaBits) spec.minExponent - e).toNat := by
  unfold shiftToTargetExponent shiftToExponent Format.targetExponent totalExponent
  dsimp only
  rw [log2_shiftRight, mantissa_ofMantissaAndAccuracy]

theorem le_roundedMantissa (em : ExtendedMantissa) : em.mantissa ≤ em.roundedMantissa := by
  obtain ⟨m, round, sticky⟩ := em
  cases round <;> cases sticky
  · exact Nat.le_refl m
  · exact Nat.le_refl m
  · exact Nat.le_add_right m (m % 2)
  · exact Nat.le_succ m

/-- Rounding leaves something of a number that is not below all others. -/
theorem round_pos {m : ℕ} (s : Sign) (a : Accuracy) (hm : 0 < m.log2) (he : -149 < e + m.log2) :
    ∃ n f hn, roundWithAccuracy .binary32 s m e a = .finite s n f hn ∧ n.log2 < 24 ∧ -149 ≤ f := by
  have hmin : Format.binary32.minExponent = -149 := rfl
  have hbits : Format.binary32.mantissaBits = 24 := rfl
  -- The first shift is settled before the second one comes into play.
  have hfirst : 0 < (shiftToTargetExponent .binary32 m e a).1.mantissa.log2 := by
    rw [log2_shift, hmin, hbits]
    omega
  have hexponent : -149 ≤ (shiftToTargetExponent .binary32 m e a).2 := by
    rw [exponent_shift, hmin, hbits]
    omega
  have hup := log2_mono (le_roundedMantissa (shiftToTargetExponent .binary32 m e a).1)
  have hsecond := log2_shift .binary32 (shiftToTargetExponent .binary32 m e a).1.roundedMantissa
    (shiftToTargetExponent .binary32 m e a).2 .exact
  have hlast := exponent_shift .binary32 (shiftToTargetExponent .binary32 m e a).1.roundedMantissa
    (shiftToTargetExponent .binary32 m e a).2 .exact
  have hshort := log2_shift_lt .binary32 (shiftToTargetExponent .binary32 m e a).1.roundedMantissa
    (shiftToTargetExponent .binary32 m e a).2 .exact
  unfold roundWithAccuracy
  dsimp only
  split
  · next hzero =>
    rw [hzero, Nat.log2_zero] at hsecond
    omega
  · next hne => exact ⟨_, _, Nat.pos_of_ne_zero hne, rfl, by omega, by omega⟩

theorem le_log2_div {m n : ℕ} (hm : m ≠ 0) (hn : 0 < n) : m.log2 - n.log2 - 1 ≤ (m / n).log2 := by
  by_cases hsmall : m.log2 ≤ n.log2
  · omega
  have hpow : 2 ^ (m.log2 - n.log2 - 1) ≤ m / n := by
    rw [Nat.le_div_iff_mul_le hn]
    calc 2 ^ (m.log2 - n.log2 - 1) * n
        ≤ 2 ^ (m.log2 - n.log2 - 1) * 2 ^ (n.log2 + 1) := Nat.mul_le_mul_left _ Nat.lt_log2_self.le
      _ = 2 ^ m.log2 := by
        rw [← Nat.pow_add]
        congr 1
        omega
      _ ≤ m := Nat.log2_self_le hm
  have hpos : m / n ≠ 0 := (Nat.lt_of_lt_of_le (Nat.two_pow_pos _) hpow).ne'
  exact (Nat.le_log2 hpos).mpr hpow

/-- **A positive number divided by one that is not much larger does not vanish.** -/
theorem Sized.div (hx : Sized e x) (hy : Sized f y) (hle : f ≤ e + 100) : 0 < x / y := by
  obtain ⟨m, hm, hx⟩ := hx
  obtain ⟨n, hn, hy⟩ := hy
  have hmlog := (bounds_of_unpack hx).2.2
  have hnlog := (bounds_of_unpack hy).2.2
  have hmin : Format.binary32.minExponent = -149 := rfl
  have hbits : Format.binary32.mantissaBits = 24 := rfl
  obtain ⟨t, ht⟩ : ∃ t, t = min (e - f) (Format.targetExponent .binary32 (totalExponent m e - totalExponent n f)) :=
    ⟨_, rfl⟩
  have hlog := le_log2_div (m := m <<< (e - f - t).toNat) (Nat.shiftLeft_pos_iff.mpr hm).ne' hn
  rw [log2_shiftLeft hm.ne'] at hlog
  have htarget : t ≤ e + m.log2 - (f + n.log2) - 24 := by
    rw [ht, Format.targetExponent, totalExponent, totalExponent]
    omega
  obtain ⟨p, g, hp, hround, hshort, hg⟩ := round_pos (e := t) (m := m <<< (e - f - t).toNat / n)
    .positive (accuracyOfFraction (m <<< (e - f - t).toNat % n) n) (by omega) (by omega)
  have hdiv : UnpackedFloat.div .binary32 x.toModel.unpack y.toModel.unpack = .finite .positive p g hp := by
    rw [hx, hy, ← hround, ht]
    rfl
  show 0 < Float32.ofModel (Float32.Model.pack (UnpackedFloat.div .binary32 x.toModel.unpack y.toModel.unpack))
  rw [hdiv]
  exact pos_pack hp hshort hg

theorem Sized.zero_div (hy : Sized f y) : 0 / y = 0 := by
  obtain ⟨n, hn, hy⟩ := hy
  show Float32.ofModel (Float32.Model.pack (UnpackedFloat.div .binary32 (.zero .positive) y.toModel.unpack)) = _
  rw [hy]
  rfl

end NpcMind.Single
