import Mathlib
import NpcMind.Proofs.Portions

/-!
# Signs of products, sums and differences

Rounding never turns a number into one of the other sign. So a product that is not zero has the sign of its factors,
a sum has the sign of one of its summands, and a difference tells which of the two numbers is larger, also where it
was rounded. None of this needs the operands to be finite; what is a NaN has no sign.
-/

namespace NpcMind.Single

open Float.Model Float.Model.UnpackedFloat

variable {x y : Float32} {u v : UnpackedFloat} {s t : Sign}

/-- A number of that sign, and not zero. -/
def Signed (s : Sign) (u : UnpackedFloat) : Prop := u = .infinity s ∨ ∃ m e hm, u = .finite s m e hm

theorem not_signed_nan : ¬ Signed s .notANumber := by
  rintro (h | ⟨m, e, hm, h⟩) <;> cases h

theorem not_signed_zero : ¬ Signed s (.zero t) := by
  rintro (h | ⟨m, e, hm, h⟩) <;> cases h

theorem Signed.signOf (h : Signed s u) : signOf u = s := by
  obtain rfl | ⟨m, e, hm, rfl⟩ := h <;> rfl

theorem pos_iff_signed : 0 < x ↔ Signed .positive x.toModel.unpack := by
  rw [lt_iff_compare, show (0 : Float32).toModel.unpack = .zero .positive from rfl]
  rcases x.toModel.unpack with (_ | _) | _ | (_ | _) | ⟨_ | _, m, e, hm⟩ <;> simp_all [Signed, UnpackedFloat.compare]

theorem neg_iff_signed : x < 0 ↔ Signed .negative x.toModel.unpack := by
  rw [lt_iff_compare, show (0 : Float32).toModel.unpack = .zero .positive from rfl]
  rcases x.toModel.unpack with (_ | _) | _ | (_ | _) | ⟨_ | _, m, e, hm⟩ <;> simp_all [Signed, UnpackedFloat.compare]

theorem le_of_lt (h : x < y) : x ≤ y := le_iff_compare.mpr ⟨.lt, lt_iff_compare.mp h, rfl⟩

theorem lt_asymm (h : x < y) : ¬ y < x := not_lt_of_le (le_of_lt h)

/-- The larger of a number and anything else: a number, one of the two, and not less than those of them that are. -/
theorem larger_spec (hx : x.isNaN = false) (y : Float32) : (larger x y).isNaN = false ∧ x ≤ larger x y ∧
    (y.isNaN = false → y ≤ larger x y) ∧ (larger x y = x ∨ larger x y = y) := by
  unfold larger
  rw [hx, if_neg Bool.false_ne_true]
  split
  · next hy =>
    refine ⟨hx, le_refl hx, fun hnumber => ?_, .inl rfl⟩
    rw [hy] at hnumber
    cases hnumber
  · next hy =>
    have hy := Bool.eq_false_iff.mpr hy
    split
    · next hlt => exact ⟨hx, le_refl hx, fun _ => le_of_lt hlt, .inl rfl⟩
    · next hge => exact ⟨hy, le_of_not_lt hx hy hge, fun _ => le_refl hy, .inr rfl⟩

theorem le_larger (x : Float32) (hy : y.isNaN = false) : y ≤ larger x y := by
  cases hx : x.isNaN with
  | true =>
    rw [larger, if_pos hx]
    exact le_refl hy
  | false => exact (larger_spec hx y).2.2.1 hy

/-! ### Rounding -/

theorem Signed.of_pack (h : Signed s (Float32.Model.pack u).unpack) : Signed s u := by
  cases u with
  | notANumber => exact absurd h not_signed_nan
  | zero t =>
    rw [unpack_pack_zero] at h
    exact absurd h not_signed_zero
  | infinity t =>
    rw [unpack_pack_infinity] at h
    exact h
  | finite t m e hm =>
    have hsign := signOf_pack (u := .finite t m e hm) UnpackedFloat.noConfusion
    rw [h.signOf] at hsign
    exact .inr ⟨m, e, hm, by rw [hsign]; rfl⟩

theorem Signed.of_round {spec : Format} {m : ℕ} {e : ℤ} {a : Accuracy}
    (h : Signed s (roundWithAccuracy spec t m e a)) : t = s := by
  rw [← h.signOf, signOf_round]

theorem Signed.of_normalize {spec : Format} {z k : ℤ} (h : Signed s (UnpackedFloat.normalize spec z k t)) :
    0 < s.apply z := by
  unfold UnpackedFloat.normalize at h
  split at h
  · next hz =>
    obtain rfl : Sign.negative = s := Signed.of_round h
    have hneg := Std.compare_eq_lt.mp hz
    show 0 < -z
    omega
  · exact absurd h not_signed_zero
  · next hz =>
    obtain rfl : Sign.positive = s := Signed.of_round h
    exact Std.compare_eq_gt.mp hz

/-! ### Products and sums -/

theorem Signed.of_mul {spec : Format} (h : Signed s (u.mul spec v)) :
    ∃ t t', Signed t u ∧ Signed t' v ∧ t * t' = s := by
  cases u with
  | notANumber => exact absurd h not_signed_nan
  | zero t =>
    cases v with
    | notANumber | infinity => exact absurd h not_signed_nan
    | zero | finite => exact absurd h not_signed_zero
  | infinity t =>
    cases v with
    | notANumber | zero => exact absurd h not_signed_nan
    | infinity t' => exact ⟨t, t', .inl rfl, .inl rfl, h.signOf⟩
    | finite t' n f hn => exact ⟨t, t', .inl rfl, .inr ⟨n, f, hn, rfl⟩, h.signOf⟩
  | finite t m e hm =>
    cases v with
    | notANumber => exact absurd h not_signed_nan
    | zero => exact absurd h not_signed_zero
    | infinity t' => exact ⟨t, t', .inr ⟨m, e, hm, rfl⟩, .inl rfl, h.signOf⟩
    | finite t' n f hn => exact ⟨t, t', .inr ⟨m, e, hm, rfl⟩, .inr ⟨n, f, hn, rfl⟩, Signed.of_round h⟩

theorem Signed.of_add {spec : Format} (h : Signed s (u.add spec v)) : Signed s u ∨ Signed s v := by
  cases u with
  | notANumber => exact .inl h
  | zero t =>
    cases v with
    | zero t' => cases t <;> cases t' <;> exact absurd h not_signed_zero
    | _ => exact .inr h
  | infinity t =>
    cases v with
    | notANumber => exact .inr h
    | infinity t' =>
      cases t <;> cases t'
      · exact .inl h
      · exact absurd h not_signed_nan
      · exact absurd h not_signed_nan
      · exact .inl h
    | _ => exact .inl h
  | finite t m e hm =>
    cases v with
    | notANumber | infinity => exact .inr h
    | zero => exact .inl h
    | finite t' n f hn =>
      have hsum : 0 < s.apply (t.apply (m <<< (e - min e f).toNat : ℕ) + t'.apply (n <<< (f - min e f).toNat : ℕ)) :=
        Signed.of_normalize (k := min e f) h
      generalize m <<< (e - min e f).toNat = a at hsum
      generalize n <<< (f - min e f).toNat = b at hsum
      by_cases ht : t = s
      · exact .inl (.inr ⟨m, e, hm, ht ▸ rfl⟩)
      · by_cases ht' : t' = s
        · exact .inr (.inr ⟨n, f, hn, ht' ▸ rfl⟩)
        · -- Two summands of the other sign cannot have a sum of this one.
          cases s <;> cases t <;> cases t' <;> simp only [Sign.apply, not_true] at hsum ht ht' <;> omega

/-- The factors of a positive product are both positive or both negative. -/
theorem pos_of_mul (h : 0 < x * y) : 0 < x ∧ 0 < y ∨ x < 0 ∧ y < 0 := by
  simp only [pos_iff_signed, neg_iff_signed] at h ⊢
  obtain ⟨t, t', hx, hy, hsign⟩ := Signed.of_mul (Signed.of_pack h)
  cases t <;> cases t' <;> cases hsign
  · exact .inr ⟨hx, hy⟩
  · exact .inl ⟨hx, hy⟩

/-- One factor of a negative product is negative, and the other one positive. -/
theorem neg_of_mul (h : x * y < 0) : 0 < x ∧ y < 0 ∨ x < 0 ∧ 0 < y := by
  simp only [pos_iff_signed, neg_iff_signed] at h ⊢
  obtain ⟨t, t', hx, hy, hsign⟩ := Signed.of_mul (Signed.of_pack h)
  cases t <;> cases t' <;> cases hsign
  · exact .inr ⟨hx, hy⟩
  · exact .inl ⟨hx, hy⟩

/-- A negative sum has a negative summand. -/
theorem neg_of_add (h : x + y < 0) : x < 0 ∨ y < 0 := by
  simp only [neg_iff_signed] at h ⊢
  exact Signed.of_add (Signed.of_pack h)

theorem not_neg_mul (hx : ¬ x < 0) (hy : ¬ y < 0) : ¬ x * y < 0 := by
  intro h
  rcases neg_of_mul h with ⟨-, h⟩ | ⟨h, -⟩
  · exact hy h
  · exact hx h

theorem not_neg_add (hx : ¬ x < 0) (hy : ¬ y < 0) : ¬ x + y < 0 := fun h => (neg_of_add h).elim hx hy

theorem not_neg_abs (x : Float32) : ¬ x.abs < 0 := by
  intro h
  have hsigned : Signed .negative x.toModel.unpack.abs := Signed.of_pack (neg_iff_signed.mp h)
  cases hx : x.toModel.unpack <;> simp [hx, UnpackedFloat.abs, Signed] at hsigned

/-! ### Differences -/

/-- Numbers in order by their reach are in order when they are written with one exponent. -/
theorem aligned_le {m n : ℕ} {e f : ℤ} {hm : 0 < m} {hn : 0 < n} (hu : Canonical (.finite s m e hm))
    (hv : Canonical (.finite t n f hn)) (h : reach (.finite t n f hn) ≤ reach (.finite s m e hm)) :
    n <<< (f - min e f).toNat ≤ m <<< (e - min e f).toNat := by
  obtain ⟨he, -, hmlt, hmle⟩ := hu
  obtain ⟨hf, -, hnlt, hnle⟩ := hv
  have h : (f + 149) * 8388608 + n ≤ (e + 149) * 8388608 + m := h
  rcases lt_trichotomy f e with hlt | rfl | hlt
  · -- The larger exponent goes with a full mantissa, and one digit more than makes up for the other one.
    obtain ⟨d, hd⟩ : ∃ d : ℕ, e - min e f = d + 1 := ⟨(e - f - 1).toNat, by omega⟩
    rw [show (f - min e f).toNat = 0 by omega, show (e - min e f).toNat = d + 1 by omega, Nat.shiftLeft_zero,
      Nat.shiftLeft_eq, pow_succ]
    have hpow := Nat.one_le_two_pow (n := d)
    have hfull := hmle (by omega)
    nlinarith
  · rw [min_self, Int.sub_self]
    show n ≤ m
    omega
  · have hfull := hnle (by omega)
    omega

theorem reach_pos {m : ℕ} {e : ℤ} {hm : 0 < m} (h : Canonical (.finite s m e hm)) : 0 < reach (.finite s m e hm) := by
  obtain ⟨he, -⟩ := h
  show 0 < (e + 149) * 8388608 + (m : ℤ)
  omega

/-- No finite number reaches as far as an infinity. -/
theorem reach_lt {m : ℕ} {e : ℤ} {hm : 0 < m} (h : Canonical (.finite s m e hm)) :
    reach (.finite s m e hm) < reach (.infinity t) := by
  obtain ⟨-, he, hmlt, -⟩ := h
  show (e + 149) * 8388608 + (m : ℤ) < 2139095040
  omega

/-- What a difference of that sign says of finite numbers. -/
theorem level_lt_of_normalize {s₁ s₂ : Sign} {m n : ℕ} {e f : ℤ} {hm : 0 < m} {hn : 0 < n}
    (hu : Canonical (.finite s₁ m e hm)) (hv : Canonical (.finite s₂ n f hn))
    (h : 0 < s.apply (s₁.apply (m <<< (e - min e f).toNat : ℕ) - s₂.apply (n <<< (f - min e f).toNat : ℕ))) :
    s.apply (level (.finite s₂ n f hn)) < s.apply (level (.finite s₁ m e hm)) := by
  have hle := aligned_le hu hv
  have hge := aligned_le hv hu
  have hupos := reach_pos hu
  have hvpos := reach_pos hv
  rw [min_comm f e] at hge
  generalize m <<< (e - min e f).toNat = a at *
  generalize n <<< (f - min e f).toNat = b at *
  cases s <;> cases s₁ <;> cases s₂ <;> simp only [level, signOf, Sign.apply] at h ⊢ <;> omega

/-- **A difference has the sign of the order of its operands.** -/
theorem level_lt_of_sub (hu : Canonical u) (hv : Canonical v) (h : Signed s (u.sub .binary32 v)) :
    s.apply (level v) < s.apply (level u) := by
  cases u with
  | notANumber => exact absurd h not_signed_nan
  | zero t =>
    cases v with
    | notANumber => exact absurd h not_signed_nan
    | zero t' => cases t <;> cases t' <;> exact absurd h not_signed_zero
    | infinity t' =>
      have hsign : -t' = s := h.signOf
      cases t <;> cases t' <;> cases hsign <;> decide
    | finite t' n f hn =>
      have hsign : -t' = s := h.signOf
      have hpos := reach_pos hv
      cases t <;> cases t' <;> cases hsign <;> simp only [level, signOf, reach, Sign.apply] at hpos ⊢ <;> omega
  | infinity t =>
    cases v with
    | notANumber => exact absurd h not_signed_nan
    | zero t' =>
      have hsign : t = s := h.signOf
      cases t <;> cases t' <;> cases hsign <;> decide
    | infinity t' =>
      cases t <;> cases t' <;> obtain h | ⟨m, e, hm, h⟩ := h <;> cases h <;> decide
    | finite t' n f hn =>
      have hsign : t = s := h.signOf
      have hlt := reach_lt hv (t := t)
      have hpos := reach_pos hv
      cases t <;> cases t' <;> cases hsign <;> simp only [level, signOf, reach, Sign.apply] at hpos hlt ⊢ <;> omega
  | finite t m e hm =>
    cases v with
    | notANumber => exact absurd h not_signed_nan
    | zero t' =>
      have hsign : t = s := h.signOf
      have hpos := reach_pos hu
      cases t <;> cases t' <;> cases hsign <;> simp only [level, signOf, reach, Sign.apply] at hpos ⊢ <;> omega
    | infinity t' =>
      have hsign : -t' = s := h.signOf
      have hlt := reach_lt hu (t := t')
      have hpos := reach_pos hu
      cases t <;> cases t' <;> cases hsign <;> simp only [level, signOf, reach, Sign.apply] at hpos hlt ⊢ <;> omega
    | finite t' n f hn => exact level_lt_of_normalize hu hv (Signed.of_normalize (k := min e f) h)

theorem isNaN_of_sub (h : Signed s (x - y).toModel.unpack) : x.isNaN = false ∧ y.isNaN = false := by
  have hsub : Signed s (UnpackedFloat.sub .binary32 x.toModel.unpack y.toModel.unpack) := Signed.of_pack h
  rw [isNaN_eq_false, isNaN_eq_false]
  constructor
  · intro hx
    rw [hx] at hsub
    exact not_signed_nan hsub
  · intro hy
    rw [hy] at hsub
    cases hx : x.toModel.unpack <;> rw [hx] at hsub <;> exact not_signed_nan hsub

theorem lt_of_sub_pos (h : 0 < x - y) : y < x := by
  have h := pos_iff_signed.mp h
  obtain ⟨hx, hy⟩ := isNaN_of_sub h
  rw [lt_iff_height hy hx]
  exact level_lt_of_sub (unpack_spec (isNaN_eq_false.mp hx)).1 (unpack_spec (isNaN_eq_false.mp hy)).1
    (Signed.of_pack h)

theorem lt_of_sub_neg (h : x - y < 0) : x < y := by
  have h := neg_iff_signed.mp h
  obtain ⟨hx, hy⟩ := isNaN_of_sub h
  rw [lt_iff_height hx hy]
  have hlt : -height y < -height x :=
    level_lt_of_sub (unpack_spec (isNaN_eq_false.mp hx)).1 (unpack_spec (isNaN_eq_false.mp hy)).1 (Signed.of_pack h)
  omega

end NpcMind.Single
