import Mathlib
import NpcMind.Single

/-!
# Facts about single-precision numbers

All but the NaN is in order, so what is moved into an interval lies in it, and moving it again changes
nothing. A sum of squares never becomes a negative zero, and arithmetic makes a NaN of nothing but
infinities and zeros. All of this is read off the bits: a number is a sign, an exponent and a mantissa, and
an operation unpacks its operands, computes and packs the result.
-/

namespace NpcMind.Single

open Float.Model Float.Model.UnpackedFloat

variable {x y lo hi : Float32}

/-! ### Order -/

theorem then_swap (e f : Int) (m n : Nat) :
    (compare f e).then (compare n m) = ((compare e f).then (compare m n)).swap := by
  rw [Ordering.swap_then, ← Std.OrientedOrd.eq_swap, ← Std.OrientedOrd.eq_swap]

theorem compare_swap (u v : UnpackedFloat) : v.compare u = (u.compare v).map Ordering.swap := by
  cases u with
  | notANumber => cases v <;> rfl
  | infinity s => cases s <;> cases v with
    | infinity t => cases t <;> rfl
    | _ => rfl
  | zero s => cases v with
    | infinity t => cases t <;> rfl
    | finite t n f hn => cases t <;> rfl
    | _ => rfl
  | finite s m e hm => cases v with
    | notANumber => rfl
    | infinity t => cases t <;> rfl
    | zero t => cases s <;> rfl
    | finite t n f hn =>
      cases s <;> cases t
      · exact congrArg (fun o => some o.swap) (then_swap e f m n)
      · rfl
      · rfl
      · exact congrArg some (then_swap e f m n)

theorem compare_isSome {u v : UnpackedFloat} (hu : u ≠ .notANumber) (hv : v ≠ .notANumber) :
    (u.compare v).isSome = true := by
  cases u with
  | notANumber => exact absurd rfl hu
  | infinity s => cases s <;> cases v with
    | notANumber => exact absurd rfl hv
    | _ => rfl
  | zero s => cases v with
    | notANumber => exact absurd rfl hv
    | infinity t => cases t <;> rfl
    | finite t n f hn => cases t <;> rfl
    | zero t => rfl
  | finite s m e hm => cases v with
    | notANumber => exact absurd rfl hv
    | infinity t => cases t <;> rfl
    | zero t => cases s <;> rfl
    | finite t n f hn => cases s <;> cases t <;> rfl

theorem lt_iff_compare : x < y ↔ x.toModel.unpack.compare y.toModel.unpack = some .lt := by
  have hlt : x < y ↔ x.toModel.unpack.lt y.toModel.unpack = true := decide_eq_true_iff
  rw [hlt, UnpackedFloat.lt, beq_iff_eq]

theorem le_iff_compare :
    x ≤ y ↔ ∃ o, x.toModel.unpack.compare y.toModel.unpack = some o ∧ o.isLE = true := by
  have hle : x ≤ y ↔ x.toModel.unpack.le y.toModel.unpack = true := decide_eq_true_iff
  rw [hle, UnpackedFloat.le, Option.any_eq_true]

theorem not_lt_of_le (h : x ≤ y) : ¬ y < x := by
  intro hlt
  obtain ⟨o, ho, hle⟩ := le_iff_compare.mp h
  have hswap := lt_iff_compare.mp hlt
  rw [compare_swap, ho] at hswap
  cases o <;> cases hle <;> cases hswap

theorem isNaN_eq_false : x.isNaN = false ↔ x.toModel.unpack ≠ .notANumber := by
  rw [← Bool.not_eq_true]
  exact not_congr UnpackedFloat.isNaN_iff

/-- Of two numbers, neither a NaN, one is at most the other. -/
theorem le_of_not_lt (hx : x.isNaN = false) (hy : y.isNaN = false) (h : ¬ y < x) : x ≤ y := by
  obtain ⟨o, ho⟩ := Option.isSome_iff_exists.mp
    (compare_isSome (isNaN_eq_false.mp hx) (isNaN_eq_false.mp hy))
  refine le_iff_compare.mpr ⟨o, ho, ?_⟩
  rw [lt_iff_compare, compare_swap, ho] at h
  cases o with
  | gt => exact absurd rfl h
  | _ => rfl

theorem ne_nan_of_le (h : x ≤ y) : x.isNaN = false ∧ y.isNaN = false := by
  obtain ⟨o, ho, -⟩ := le_iff_compare.mp h
  refine ⟨isNaN_eq_false.mpr fun hx => ?_, isNaN_eq_false.mpr fun hy => ?_⟩
  · rw [hx] at ho
    cases ho
  · rw [hy, compare_swap] at ho
    cases ho

theorem le_refl (hx : x.isNaN = false) : x ≤ x := by
  refine le_of_not_lt hx hx fun h => ?_
  have hlt := lt_iff_compare.mp h
  have hswap := compare_swap x.toModel.unpack x.toModel.unpack
  rw [hlt] at hswap
  cases hswap

theorem clamp_clamp (h : lo ≤ hi) (x : Float32) :
    clamp lo hi (clamp lo hi x) = clamp lo hi x := by
  have hlt : ¬ hi < lo := not_lt_of_le h
  unfold clamp
  by_cases hx : x < lo
  · simp only [if_pos hx, if_neg hlt, ite_self]
  · by_cases hy : hi < x
    · simp only [if_neg hx, if_pos hy, if_neg hlt, ite_self]
    · simp only [if_neg hx, if_neg hy]

/-- A number that is not a NaN is moved into the interval. -/
theorem clamp_mem (h : lo ≤ hi) (hx : x.isNaN = false) : lo ≤ clamp lo hi x ∧ clamp lo hi x ≤ hi := by
  obtain ⟨hlo, hhi⟩ := ne_nan_of_le h
  unfold clamp
  by_cases hlow : x < lo
  · rw [if_pos hlow]
    exact ⟨le_refl hlo, h⟩
  · rw [if_neg hlow]
    by_cases hhigh : hi < x
    · rw [if_pos hhigh]
      exact ⟨h, le_refl hhi⟩
    · rw [if_neg hhigh]
      exact ⟨le_of_not_lt hlo hx hlow, le_of_not_lt hx hhi hhigh⟩

/-! ### Rounding -/

theorem log2_half (m : Nat) : (m / 2).log2 = m.log2 - 1 := by
  rw [Nat.log2_def m]
  split
  · rfl
  · rw [show m / 2 = 0 by omega]
    rfl

theorem log2_shiftRight (em : ExtendedMantissa) (n : Nat) :
    (em >>> n).mantissa.log2 = em.mantissa.log2 - n := by
  show (n.repeat ExtendedMantissa.shiftRightOne em).mantissa.log2 = em.mantissa.log2 - n
  induction n with
  | zero => rfl
  | succ n ih =>
    show ((n.repeat ExtendedMantissa.shiftRightOne em).mantissa / 2).log2 = _
    rw [log2_half, ih, Nat.sub_sub]

theorem roundedMantissa_le (em : ExtendedMantissa) : em.roundedMantissa ≤ em.mantissa + 1 := by
  obtain ⟨m, round, sticky⟩ := em
  cases round <;> cases sticky
  · exact Nat.le_succ m
  · exact Nat.le_succ m
  · show m + m % 2 ≤ m + 1
    omega
  · exact Nat.le_refl _

theorem mantissa_ofMantissaAndAccuracy (m : Nat) (a : Accuracy) :
    (ExtendedMantissa.ofMantissaAndAccuracy m a).mantissa = m := by
  cases a with
  | exact => rfl
  | inexact o => cases o <;> rfl

theorem log2_le_of_le_succ {m n : Nat} (h : m ≤ n + 1) : m.log2 ≤ n.log2 + 1 := by
  rcases Nat.eq_zero_or_pos n with rfl | hn
  · interval_cases m <;> decide
  · rw [← Nat.log2_two_mul hn.ne', Nat.log2_eq_log_two, Nat.log2_eq_log_two]
    exact Nat.log_mono_right (by omega)

theorem exponent_shift (spec : Format) (m : Nat) (e : Int) (a : Accuracy) :
    (shiftToTargetExponent spec m e a).2 =
      max e (max (e + m.log2 + 1 - spec.mantissaBits) spec.minExponent) := by
  unfold shiftToTargetExponent shiftToExponent Format.targetExponent totalExponent
  dsimp only
  omega

theorem log2_shift_lt (spec : Format) (m : Nat) (e : Int) (a : Accuracy) :
    (shiftToTargetExponent spec m e a).1.mantissa.log2 < spec.mantissaBits := by
  have hbits : 0 < spec.mantissaBits := by
    unfold Format.mantissaBits
    omega
  unfold shiftToTargetExponent shiftToExponent Format.targetExponent totalExponent
  dsimp only
  rw [log2_shiftRight, mantissa_ofMantissaAndAccuracy]
  omega

/-- Rounding gives zero or a number whose exponent grew no more than the mantissa has digits too many, but for one
more if it is rounded up. -/
theorem round_cases (spec : Format) (s : Sign) (m : Nat) (e : Int) (a : Accuracy) :
    roundWithAccuracy spec s m e a = .zero s ∨ ∃ n f hn, roundWithAccuracy spec s m e a = .finite s n f hn ∧
      f ≤ max e (max (e + m.log2 + 1 - spec.mantissaBits) spec.minExponent) + 1 := by
  have hlog := log2_le_of_le_succ (roundedMantissa_le (shiftToTargetExponent spec m e a).1)
  have hlost := log2_shift_lt spec m e a
  have hfirst := exponent_shift spec m e a
  have hsecond := exponent_shift spec (shiftToTargetExponent spec m e a).1.roundedMantissa
    (shiftToTargetExponent spec m e a).2 .exact
  unfold roundWithAccuracy
  dsimp only
  split
  · exact .inl rfl
  · next hne => exact .inr ⟨_, _, Nat.pos_of_ne_zero hne, rfl, by omega⟩

/-! ### Signs -/

/-- The sign of an unpacked number; a NaN has none, and counts as positive. -/
def signOf : UnpackedFloat → Sign
  | .infinity s => s
  | .notANumber => .positive
  | .zero s => s
  | .finite s _ _ _ => s

theorem signOf_round (spec : Format) (s : Sign) (m : Nat) (e : Int) (a : Accuracy) :
    signOf (roundWithAccuracy spec s m e a) = s := by
  obtain hzero | ⟨n, f, hn, hfinite, -⟩ := round_cases spec s m e a
  · rw [hzero, signOf]
  · rw [hfinite, signOf]

theorem signOf_mul_self (spec : Format) (u : UnpackedFloat) : signOf (u.mul spec u) = .positive := by
  cases u with
  | notANumber => rfl
  | infinity s => cases s <;> rfl
  | zero s => cases s <;> rfl
  | finite s m e hm =>
    show signOf (roundWithAccuracy spec (s * s) _ _ _) = _
    rw [signOf_round]
    cases s <;> rfl

theorem signOf_normalize (spec : Format) (m : Nat) (e : Int) :
    signOf (UnpackedFloat.normalize spec m e .positive) = .positive := by
  unfold UnpackedFloat.normalize
  split
  · next h =>
    have hneg := Std.compare_eq_lt.mp h
    omega
  · rfl
  · exact signOf_round spec _ _ _ _

theorem signOf_add (spec : Format) {u v : UnpackedFloat} (hu : signOf u = .positive)
    (hv : signOf v = .positive) : signOf (u.add spec v) = .positive := by
  cases u with
  | notANumber => rfl
  | infinity s =>
    cases hu
    cases v with
    | infinity t =>
      cases hv
      rfl
    | _ => rfl
  | zero s =>
    cases hu
    cases v with
    | zero t =>
      cases hv
      rfl
    | _ => exact hv
  | finite s m e hm =>
    cases hu
    cases v with
    | finite t n f hn =>
      cases hv
      exact signOf_normalize spec (_ + _) _
    | zero t => rfl
    | infinity t => exact hv
    | notANumber => rfl

/-- The sign bit is off, as it is in a NaN. -/
def Unsigned (x : Float32) : Prop := @unpackSign .binary32 x.toModel.toBits.toBitVec = 0#1

theorem signOf_unpack (h : Unsigned x) : signOf x.toModel.unpack = .positive := by
  have hsign : Sign.ofBitVec (@unpackSign .binary32 x.toModel.toBits.toBitVec) = .positive := by
    rw [show @unpackSign .binary32 x.toModel.toBits.toBitVec = 0#1 from h]
    rfl
  unfold Float32.Model.unpack UnpackedFloat.unpack
  dsimp only
  split
  · split
    · exact hsign
    · rfl
  · split
    · split
      · exact hsign
      · exact hsign
    · exact hsign

theorem unsigned_pack {u : UnpackedFloat} (h : signOf u = .positive) :
    Unsigned ⟨Float32.Model.pack u⟩ := by
  have hcomp (s : Sign) (hs : s = .positive) (e : BitVec 8) (m : BitVec 23) :
      unpackSign (packComponents Format.binary32 s e m) = 0#1 := by
    rw [unpackSign_packComponents, hs]
    rfl
  cases u with
  | notANumber => exact hcomp _ rfl _ _
  | infinity s => exact hcomp _ h _ _
  | zero s => exact hcomp _ h _ _
  | finite s m e hm =>
    show unpackSign (UnpackedFloat.pack Format.binary32 (.finite s m e hm)) = 0#1
    unfold UnpackedFloat.pack
    dsimp only
    split
    · exact hcomp _ h _ _
    · split <;> exact hcomp _ h _ _

theorem unsigned_add (hx : Unsigned x) (hy : Unsigned y) : Unsigned (x + y) :=
  unsigned_pack (signOf_add _ (signOf_unpack hx) (signOf_unpack hy))

theorem unsigned_mul_self (x : Float32) : Unsigned (x * x) := unsigned_pack (signOf_mul_self _ _)

theorem unsigned_zero : Unsigned 0 := rfl

/-- Of the two zeros, only the positive one is unsigned. -/
theorem eq_zero_of_unsigned (hx : Unsigned x) (h : (x == 0) = true) : x = 0 := by
  obtain ⟨-, -, hzero | ⟨hzero, -⟩ | ⟨rfl, -⟩⟩ := Float32.beq_iff_ne_nan_and_eq.mp h
  · exact hzero
  · exact hzero
  · exact absurd hx (by unfold Unsigned; decide)

/-! ### Arithmetic without a NaN -/

theorem isFinite_iff : x.isFinite = true ↔
    (∃ s, x.toModel.unpack = .zero s) ∨ ∃ s m e h, x.toModel.unpack = .finite s m e h := by
  show x.toModel.unpack.isFinite = true ↔ _
  cases x.toModel.unpack with
  | finite s m e h => exact iff_of_true rfl (.inr ⟨s, m, e, h, rfl⟩)
  | _ => simp [UnpackedFloat.isFinite]

theorem isNaN_of_isFinite (h : x.isFinite = true) : x.isNaN = false := by
  refine isNaN_eq_false.mpr ?_
  obtain ⟨s, hx⟩ | ⟨s, m, e, hm, hx⟩ := isFinite_iff.mp h <;> rw [hx] <;> simp

theorem packComponents_ne_packedNaN (s : Sign) (e : BitVec 8) (m : BitVec 23) (h : e = -1#8 → m = 0#23) :
    packComponents .binary32 s e m ≠ packedNaN .binary32 := by
  intro heq
  have he : e = -1#8 := by
    have := congrArg (@unpackExponent .binary32) heq
    rwa [unpackExponent_packComponents, packedNaN, unpackExponent_packComponents] at this
  have hm : m = 1#23 <<< 22 := by
    have := congrArg (@unpackMantissa .binary32) heq
    rwa [unpackMantissa_packComponents, packedNaN, unpackMantissa_packComponents] at this
  rw [h he] at hm
  exact absurd hm (by decide)

/-- Packing overflows to an infinity, never to a NaN. -/
theorem unpack_pack_ne {u : UnpackedFloat} (hu : u ≠ .notANumber) :
    (Float32.Model.pack u).unpack ≠ .notANumber := by
  have hvalid : Format.binary32.Valid (UnpackedFloat.pack .binary32 u) := valid_pack
  show unpack .binary32 (UnpackedFloat.pack .binary32 u) ≠ _
  rw [ne_eq, unpack_eq_notANumber_iff_of_valid hvalid]
  cases u with
  | notANumber => exact absurd rfl hu
  | infinity s => exact packComponents_ne_packedNaN s _ _ fun _ => rfl
  | zero s => exact packComponents_ne_packedNaN s _ _ fun h => absurd h (by decide)
  | finite s m e hm =>
    unfold UnpackedFloat.pack
    dsimp only
    split
    · exact packComponents_ne_packedNaN s _ _ fun _ => rfl
    · next hsmall =>
      split
      · refine packComponents_ne_packedNaN s _ _ fun h => ?_
        have hnat := congrArg BitVec.toNat h
        rw [BitVec.toNat_ofNat, show (-1#8).toNat = 255 from rfl] at hnat
        omega
      · exact packComponents_ne_packedNaN s _ _ fun h => absurd h (by decide)

theorem isNaN_pack {u : UnpackedFloat} (hu : u ≠ .notANumber) :
    (Float32.ofModel (Float32.Model.pack u)).isNaN = false :=
  isNaN_eq_false.mpr (unpack_pack_ne hu)

theorem round_ne (spec : Format) (s : Sign) (m : Nat) (e : Int) (a : Accuracy) :
    roundWithAccuracy spec s m e a ≠ .notANumber := by
  obtain hzero | ⟨n, f, hn, hfinite, -⟩ := round_cases spec s m e a
  · rw [hzero]
    exact UnpackedFloat.noConfusion
  · rw [hfinite]
    exact UnpackedFloat.noConfusion

theorem normalize_ne (spec : Format) (m e : Int) (s : Sign) :
    UnpackedFloat.normalize spec m e s ≠ .notANumber := by
  unfold UnpackedFloat.normalize
  split
  · exact round_ne spec _ _ _ _
  · exact UnpackedFloat.noConfusion
  · exact round_ne spec _ _ _ _

theorem add_ne (spec : Format) {u v : UnpackedFloat} (hu : u ≠ .notANumber) (hv : v.isFinite = true) :
    u.add spec v ≠ .notANumber := by
  cases v with
  | notANumber | infinity t => cases hv
  | zero t =>
    cases u with
    | notANumber => exact absurd rfl hu
    | infinity s => exact UnpackedFloat.noConfusion
    | zero s =>
      show (if s == t then UnpackedFloat.zero s else .zero .positive) ≠ _
      split <;> exact UnpackedFloat.noConfusion
    | finite s m e hm => exact UnpackedFloat.noConfusion
  | finite t n f hn =>
    cases u with
    | notANumber => exact absurd rfl hu
    | infinity s => exact UnpackedFloat.noConfusion
    | zero s => exact UnpackedFloat.noConfusion
    | finite s m e hm => exact normalize_ne spec _ _ _

/-- A finite number may be added to anything but a NaN. -/
theorem isNaN_add (hx : x.isNaN = false) (hy : y.isFinite = true) : (x + y).isNaN = false :=
  isNaN_pack (add_ne _ (isNaN_eq_false.mp hx) hy)

/-- What is finite and not zero may be subtracted from anything but a NaN. -/
theorem isNaN_sub {s : Sign} {m : Nat} {e : Int} {hm : 0 < m} (hx : x.isNaN = false)
    (hy : y.toModel.unpack = .finite s m e hm) : (x - y).isNaN = false := by
  refine isNaN_pack (u := UnpackedFloat.sub .binary32 x.toModel.unpack y.toModel.unpack) ?_
  have hx := isNaN_eq_false.mp hx
  rw [hy]
  cases hu : x.toModel.unpack with
  | notANumber => exact absurd hu hx
  | finite => exact normalize_ne .binary32 _ _ _
  | _ => exact UnpackedFloat.noConfusion

/-- Anything but a NaN may be multiplied by what is finite and not zero. -/
theorem isNaN_mul {s : Sign} {m : Nat} {e : Int} {hm : 0 < m}
    (hx : x.toModel.unpack = .finite s m e hm) (hy : y.isNaN = false) : (x * y).isNaN = false := by
  refine isNaN_pack (u := UnpackedFloat.mul .binary32 x.toModel.unpack y.toModel.unpack) ?_
  have hy := isNaN_eq_false.mp hy
  rw [hx]
  cases hv : y.toModel.unpack with
  | notANumber => exact absurd hv hy
  | finite => exact round_ne .binary32 _ _ _ _
  | _ => exact UnpackedFloat.noConfusion

/-- Anything but a NaN may be multiplied by what is finite and not zero. -/
theorem isNaN_mul_of_finite {s : Sign} {m : Nat} {e : Int} {hm : 0 < m} (hx : x.isNaN = false)
    (hy : y.toModel.unpack = .finite s m e hm) : (x * y).isNaN = false := by
  refine isNaN_pack (u := UnpackedFloat.mul .binary32 x.toModel.unpack y.toModel.unpack) ?_
  have hx := isNaN_eq_false.mp hx
  rw [hy]
  cases hu : x.toModel.unpack with
  | notANumber => exact absurd hu hx
  | finite => exact round_ne .binary32 _ _ _ _
  | _ => exact UnpackedFloat.noConfusion

/-- Anything but a NaN may be divided by what is finite and not zero. -/
theorem isNaN_div {s : Sign} {m : Nat} {e : Int} {hm : 0 < m} (hx : x.isNaN = false)
    (hy : y.toModel.unpack = .finite s m e hm) : (x / y).isNaN = false := by
  refine isNaN_pack (u := UnpackedFloat.div .binary32 x.toModel.unpack y.toModel.unpack) ?_
  have hx := isNaN_eq_false.mp hx
  rw [hy]
  cases hu : x.toModel.unpack with
  | notANumber => exact absurd hu hx
  | finite => exact round_ne .binary32 _ _ _ _
  | _ => exact UnpackedFloat.noConfusion

/-! ### Arithmetic without an overflow -/

/-- What lies between finite numbers is finite. -/
theorem isFinite_of_between (hlo : lo ≤ x) (hhi : x ≤ hi) (hl : lo.isFinite = true) (hh : hi.isFinite = true) :
    x.isFinite = true := by
  obtain ⟨o, ho, hle⟩ := le_iff_compare.mp hhi
  obtain ⟨o', ho', hle'⟩ := le_iff_compare.mp hlo
  refine isFinite_iff.mpr ?_
  cases hx : x.toModel.unpack with
  | notANumber =>
    rw [hx] at ho
    cases ho
  | infinity s =>
    rw [hx] at ho ho'
    cases s with
    | positive =>
      obtain ⟨t, ht⟩ | ⟨t, n, f, hn, ht⟩ := isFinite_iff.mp hh <;> rw [ht] at ho <;> cases ho <;> cases hle
    | negative =>
      obtain ⟨t, ht⟩ | ⟨t, n, f, hn, ht⟩ := isFinite_iff.mp hl <;> rw [ht] at ho' <;> cases t <;> cases ho' <;>
        cases hle'
  | zero s => exact .inl ⟨s, rfl⟩
  | finite s m e hm => exact .inr ⟨s, m, e, hm, rfl⟩

/-- A zero, or a number whose exponent is at most `k`. -/
def Within (k : Int) (u : UnpackedFloat) : Prop :=
  (∃ s, u = .zero s) ∨ ∃ s m e hm, u = .finite s m e hm ∧ e ≤ k

theorem within_round {k e : Int} {m : Nat} (s : Sign) (a : Accuracy) (he : e < k) (hm : e + m.log2 - 23 < k)
    (hk : -149 < k) : Within k (roundWithAccuracy .binary32 s m e a) := by
  have hmin : Format.binary32.minExponent = -149 := rfl
  have hbits : Format.binary32.mantissaBits = 24 := rfl
  obtain hzero | ⟨n, f, hn, hfinite, hf⟩ := round_cases .binary32 s m e a
  · exact .inl ⟨s, hzero⟩
  · exact .inr ⟨s, n, f, hn, hfinite, by omega⟩

theorem unpackExponent_pack_le {s : Sign} {m : Nat} {e : Int} (hm : 0 < m) (he : e ≤ 104) :
    (unpackExponent (UnpackedFloat.pack .binary32 (.finite s m e hm))).toNat ≤ (e + 150).toNat := by
  have hbias : Format.binary32.exponentBias = 127 := rfl
  unfold UnpackedFloat.pack
  dsimp only
  rw [hbias, if_neg (by omega)]
  split
  · rw [unpackExponent_packComponents, BitVec.toNat_ofNat]
    exact Nat.le_trans (Nat.mod_le _ _) (by omega)
  · rw [unpackExponent_packComponents]
    exact Nat.zero_le _

theorem within_unpack {k : Int} {b : BitVec 32} (hb : ((@unpackExponent .binary32 b).toNat : Int) - 150 ≤ k)
    (hk : -149 ≤ k) (hk' : k ≤ 104) : Within k (UnpackedFloat.unpack .binary32 b) := by
  have hfinite : @unpackExponent .binary32 b ≠ -1#8 := by
    intro h
    have hnat := congrArg BitVec.toNat h
    rw [show (-1#8).toNat = 255 from rfl] at hnat
    omega
  have hbias : Format.binary32.exponentBias = 127 := rfl
  unfold UnpackedFloat.unpack
  dsimp only
  rw [if_neg hfinite, hbias]
  split
  · next hzero =>
    split
    · exact .inl ⟨_, rfl⟩
    · refine .inr ⟨_, _, _, _, rfl, ?_⟩
      rw [hzero]
      show (0 : Int) - 150 + 1 ≤ k
      omega
  · exact .inr ⟨_, _, _, _, rfl, by omega⟩

/-- Packing does not raise the exponent, unless to the least one there is. -/
theorem within_pack {k : Int} {u : UnpackedFloat} (h : Within k u) (hk : -149 ≤ k) (hk' : k ≤ 104) :
    Within k (Float32.Model.pack u).unpack := by
  refine within_unpack ?_ hk hk'
  obtain ⟨s, rfl⟩ | ⟨s, m, e, hm, rfl, he⟩ := h
  · show ((unpackExponent (packComponents .binary32 s 0 0)).toNat : Int) - 150 ≤ k
    rw [unpackExponent_packComponents]
    show (0 : Int) - 150 ≤ k
    omega
  · have hle := unpackExponent_pack_le (s := s) hm (Int.le_trans he hk')
    show ((unpackExponent (UnpackedFloat.pack .binary32 (.finite s m e hm))).toNat : Int) - 150 ≤ k
    omega

theorem unpack_finite_lt {s : Sign} {m : Nat} {e : Int} {hm : 0 < m}
    (h : x.toModel.unpack = .finite s m e hm) : m < 16777216 := by
  unfold Float32.Model.unpack UnpackedFloat.unpack at h
  dsimp only at h
  split at h
  · split at h <;> cases h
  · split at h
    · split at h
      · cases h
      · cases h
        exact Nat.lt_trans (BitVec.isLt _) (by decide)
    · cases h
      exact BitVec.isLt _

theorem exponent_le_of_then {m n : Nat} {e f : Int} (h : ((compare e f).then (compare m n)).isLE = true) :
    e ≤ f := by
  by_contra hlt
  have hgt : compare e f = .gt := Std.compare_eq_gt.mpr (by omega)
  rw [hgt] at h
  cases h

/-- A number from -1 to 1 has a small exponent. -/
theorem exponent_le_of_signed (hlo : -1 ≤ x) (hhi : x ≤ 1) {s : Sign} {m : Nat} {e : Int} {hm : 0 < m}
    (hx : x.toModel.unpack = .finite s m e hm) : e ≤ -23 := by
  have hone : (1 : Float32).toModel.unpack = .finite .positive 8388608 (-23) (by decide) := rfl
  have hminus : (-1 : Float32).toModel.unpack = .finite .negative 8388608 (-23) (by decide) := rfl
  cases s with
  | positive =>
    obtain ⟨o, ho, hle⟩ := le_iff_compare.mp hhi
    rw [hx, hone] at ho
    cases ho
    exact exponent_le_of_then hle
  | negative =>
    obtain ⟨o, ho, hle⟩ := le_iff_compare.mp hlo
    rw [hx, hminus] at ho
    cases ho
    rw [← then_swap] at hle
    exact exponent_le_of_then hle

/-- A zero, or a number whose exponent is at most `k`; a mantissa has 24 binary digits. -/
def Below (k : Int) (x : Float32) : Prop := Within k x.toModel.unpack

theorem Below.isFinite {k : Int} (h : Below k x) : x.isFinite = true := by
  obtain ⟨s, hx⟩ | ⟨s, m, e, hm, hx, -⟩ := h
  · exact isFinite_iff.mpr (.inl ⟨s, hx⟩)
  · exact isFinite_iff.mpr (.inr ⟨s, m, e, hm, hx⟩)

theorem below_of_signed (hlo : -1 ≤ x) (hhi : x ≤ 1) : Below (-23) x := by
  obtain ⟨s, hx⟩ | ⟨s, m, e, hm, hx⟩ := isFinite_iff.mp (isFinite_of_between hlo hhi rfl rfl)
  · exact .inl ⟨s, hx⟩
  · exact .inr ⟨s, m, e, hm, hx, exponent_le_of_signed hlo hhi hx⟩

/-- A product has twice the digits, and loses them again. -/
theorem Below.mul {k l : Int} (hx : Below k x) (hy : Below l y) (hlo : -174 < k + l) (hhi : k + l ≤ 79) :
    Below (k + l + 25) (x * y) := by
  show Within _ (Float32.Model.pack (UnpackedFloat.mul .binary32 x.toModel.unpack y.toModel.unpack)).unpack
  refine within_pack ?_ (by omega) (by omega)
  obtain ⟨s, hx⟩ | ⟨s, m, e, hm, hx, he⟩ := hx <;> obtain ⟨t, hy⟩ | ⟨t, n, f, hn, hy, hf⟩ := hy <;> rw [hx, hy]
  · exact .inl ⟨_, rfl⟩
  · exact .inl ⟨_, rfl⟩
  · exact .inl ⟨_, rfl⟩
  · have hlt : m * n < 281474976710656 := Nat.mul_lt_mul_of_lt_of_lt (unpack_finite_lt hx) (unpack_finite_lt hy)
    have hlog : (m * n).log2 < 48 := (Nat.log2_lt (Nat.mul_pos hm hn).ne').mpr hlt
    exact within_round (s * t) .exact (by omega) (by omega) (by omega)

/-- Halves of numbers from -1 to 1 do not overflow. -/
theorem isFinite_half_mul (hlo : -1 ≤ x) (hhi : x ≤ 1) : (0.5 * x).isFinite = true := by
  have hhalf : Below (-24) 0.5 := .inr ⟨.positive, 8388608, -24, by decide, rfl, Int.le_refl _⟩
  exact (hhalf.mul (below_of_signed hlo hhi) (by decide) (by decide)).isFinite

end NpcMind.Single
