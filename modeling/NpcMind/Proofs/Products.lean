import NpcMind.Proofs.Singles

/-!
# Products with zeros and infinities

A product with a zero is a zero, or else a NaN; a product with what is not finite is not finite either. So a
factor of zero or infinity decides what becomes of a whole chain of products, whatever the other factors are.
Where the factors are of a moderate size, nothing becomes infinite on the way.
-/

namespace NpcMind.Single

open Float.Model Float.Model.UnpackedFloat

variable {x y : Float32}

/-! ### Zeros -/

theorem beq_iff_compare : (x == y) = true ↔ x.toModel.unpack.compare y.toModel.unpack = some .eq := by
  show x.toModel.unpack.beq y.toModel.unpack = true ↔ _
  rw [UnpackedFloat.beq, beq_iff_eq]

theorem beq_iff_le : (x == y) = true ↔ x ≤ y ∧ y ≤ x := by
  rw [beq_iff_compare, le_iff_compare, le_iff_compare, compare_swap x.toModel.unpack]
  rcases x.toModel.unpack.compare y.toModel.unpack with _ | o
  · simp
  · cases o <;> simp

theorem unpack_pack_zero (s : Sign) : (Float32.Model.pack (.zero s)).unpack = .zero s := by
  cases s <;> rfl

theorem unpack_pack_infinity (s : Sign) : (Float32.Model.pack (.infinity s)).unpack = .infinity s := by
  cases s <;> rfl

/-- A zero or a NaN, which is all that a product with a zero can be. -/
def Void (x : Float32) : Prop := x.toModel.unpack = .notANumber ∨ ∃ s, x.toModel.unpack = .zero s

theorem void_zero : Void 0 := .inr ⟨.positive, rfl⟩

theorem void_pack {u : UnpackedFloat} (h : u = .notANumber ∨ ∃ s, u = .zero s) :
    Void (Float32.ofModel (Float32.Model.pack u)) := by
  obtain rfl | ⟨s, rfl⟩ := h
  · exact .inl rfl
  · exact .inr ⟨s, unpack_pack_zero s⟩

theorem Void.mul_right (h : Void x) (y : Float32) : Void (x * y) := by
  refine void_pack (u := UnpackedFloat.mul .binary32 x.toModel.unpack y.toModel.unpack) ?_
  obtain h | ⟨s, h⟩ := h
  · rw [h]
    exact .inl rfl
  · rw [h]
    cases y.toModel.unpack with
    | notANumber | infinity => exact .inl rfl
    | zero | finite => exact .inr ⟨_, rfl⟩

theorem Void.mul_left (h : Void y) (x : Float32) : Void (x * y) := by
  refine void_pack (u := UnpackedFloat.mul .binary32 x.toModel.unpack y.toModel.unpack) ?_
  obtain h | ⟨s, h⟩ := h
  · rw [h]
    cases x.toModel.unpack <;> exact .inl rfl
  · rw [h]
    cases x.toModel.unpack with
    | notANumber | infinity => exact .inl rfl
    | zero | finite => exact .inr ⟨_, rfl⟩

/-- What is void exceeds nothing that is not negative. -/
theorem Void.not_gt (h : Void x) (hy : 0 ≤ y) : ¬ y < x := by
  intro hlt
  have hlt := lt_iff_compare.mp hlt
  obtain ⟨o, ho, hle⟩ := le_iff_compare.mp hy
  obtain h | ⟨s, h⟩ := h
  · rw [h] at hlt
    cases hv : y.toModel.unpack <;> rw [hv] at hlt <;> cases hlt
  · rw [show (0 : Float32).toModel.unpack = .zero .positive from rfl] at ho
    rw [h] at hlt
    cases hv : y.toModel.unpack with
    | notANumber | zero => rw [hv] at hlt; cases hlt
    | infinity t | finite t =>
      rw [hv] at hlt ho
      cases t
      · cases ho
        cases hle
      · cases hlt

theorem beq_zero_iff : (x == 0) = true ↔ ∃ s, x.toModel.unpack = .zero s := by
  rw [beq_iff_compare, show (0 : Float32).toModel.unpack = .zero .positive from rfl]
  cases x.toModel.unpack with
  | notANumber => exact iff_of_false nofun nofun
  | infinity s => cases s <;> exact iff_of_false nofun nofun
  | zero s => exact iff_of_true rfl ⟨s, rfl⟩
  | finite s => cases s <;> exact iff_of_false nofun nofun

theorem isNaN_eq_true : x.isNaN = true ↔ x.toModel.unpack = .notANumber := by
  rw [← Bool.not_eq_false, isNaN_eq_false, ne_eq, Classical.not_not]

theorem Void.eq_zero_or_nan (h : Void x) : (x == 0) = true ∨ x.isNaN = true :=
  h.symm.imp beq_zero_iff.mpr isNaN_eq_true.mpr

/-- A zero stays one in a product with anything finite. -/
theorem beq_zero_mul (hx : (x == 0) = true) (hy : y.isFinite = true) : (x * y == 0) = true := by
  obtain ⟨s, hx⟩ := beq_zero_iff.mp hx
  refine beq_zero_iff.mpr ?_
  show ∃ t, (Float32.Model.pack (x.toModel.unpack.mul .binary32 y.toModel.unpack)).unpack = .zero t
  rw [hx]
  obtain ⟨t, hy⟩ | ⟨t, _, _, _, hy⟩ := isFinite_iff.mp hy <;> rw [hy]
  · exact ⟨_, unpack_pack_zero (s * t)⟩
  · exact ⟨_, unpack_pack_zero (s * t)⟩

theorem beq_mul_zero (hx : x.isFinite = true) (hy : (y == 0) = true) : (x * y == 0) = true := by
  obtain ⟨s, hy⟩ := beq_zero_iff.mp hy
  refine beq_zero_iff.mpr ?_
  show ∃ t, (Float32.Model.pack (x.toModel.unpack.mul .binary32 y.toModel.unpack)).unpack = .zero t
  rw [hy]
  obtain ⟨t, hx⟩ | ⟨t, _, _, _, hx⟩ := isFinite_iff.mp hx <;> rw [hx]
  · exact ⟨_, unpack_pack_zero (t * s)⟩
  · exact ⟨_, unpack_pack_zero (t * s)⟩

/-! ### What is no number -/

theorem isNaN_pack_nan {u : UnpackedFloat} (hu : u = .notANumber) :
    (Float32.ofModel (Float32.Model.pack u)).isNaN = true := by
  rw [hu]
  rfl

theorem isNaN_mul_nan (x : Float32) (hy : y.isNaN = true) : (x * y).isNaN = true := by
  refine isNaN_pack_nan (u := x.toModel.unpack.mul .binary32 y.toModel.unpack) ?_
  rw [isNaN_eq_true.mp hy]
  cases x.toModel.unpack <;> rfl

theorem isNaN_nan_add (hx : x.isNaN = true) (y : Float32) : (x + y).isNaN = true := by
  refine isNaN_pack_nan (u := x.toModel.unpack.add .binary32 y.toModel.unpack) ?_
  rw [isNaN_eq_true.mp hx]
  cases y.toModel.unpack <;> rfl

theorem isNaN_add_nan (x : Float32) (hy : y.isNaN = true) : (x + y).isNaN = true := by
  refine isNaN_pack_nan (u := x.toModel.unpack.add .binary32 y.toModel.unpack) ?_
  rw [isNaN_eq_true.mp hy]
  cases x.toModel.unpack <;> rfl

theorem isNaN_nan_sub (hx : x.isNaN = true) (y : Float32) : (x - y).isNaN = true := by
  refine isNaN_pack_nan (u := x.toModel.unpack.sub .binary32 y.toModel.unpack) ?_
  rw [isNaN_eq_true.mp hx]
  cases y.toModel.unpack <;> rfl

theorem isNaN_div_nan (x : Float32) (hy : y.isNaN = true) : (x / y).isNaN = true := by
  refine isNaN_pack_nan (u := x.toModel.unpack.div .binary32 y.toModel.unpack) ?_
  rw [isNaN_eq_true.mp hy]
  cases x.toModel.unpack <;> rfl

/-! ### Infinities -/

theorem isNaN_sub_infinity {s : Sign} (hx : x.toModel.unpack = .infinity s) (hy : y.toModel.unpack = .infinity s) :
    (x - y).isNaN = true := by
  refine isNaN_pack_nan (u := x.toModel.unpack.sub .binary32 y.toModel.unpack) ?_
  rw [hx, hy]
  cases s <;> rfl

theorem isFinite_pack_eq_false {u : UnpackedFloat} (h : u = .notANumber ∨ ∃ s, u = .infinity s) :
    (Float32.ofModel (Float32.Model.pack u)).isFinite = false := by
  show (Float32.Model.pack u).unpack.isFinite = false
  obtain rfl | ⟨s, rfl⟩ := h
  · exact congrArg UnpackedFloat.isFinite (rfl : (Float32.Model.pack .notANumber).unpack = .notANumber)
  · rw [unpack_pack_infinity]
    rfl

/-- What is not finite stays so in any product. -/
theorem isFinite_mul_eq_false (h : x.isFinite = false) (y : Float32) : (x * y).isFinite = false := by
  have h : x.toModel.unpack.isFinite = false := h
  refine isFinite_pack_eq_false (u := UnpackedFloat.mul .binary32 x.toModel.unpack y.toModel.unpack) ?_
  cases hu : x.toModel.unpack with
  | zero | finite =>
    rw [hu] at h
    cases h
  | notANumber => exact .inl rfl
  | infinity s =>
    cases y.toModel.unpack with
    | notANumber | zero => exact .inl rfl
    | infinity t | finite t => exact .inr ⟨_, rfl⟩

theorem beq_zero_eq_false (h : x.isFinite = false) : (x == 0) = false := by
  have h : x.toModel.unpack.isFinite = false := h
  refine Bool.not_eq_true _ ▸ fun hzero => ?_
  have hzero := beq_iff_compare.mp hzero
  cases hu : x.toModel.unpack with
  | zero | finite =>
    rw [hu] at h
    cases h
  | notANumber =>
    rw [hu] at hzero
    cases hzero
  | infinity s =>
    rw [hu] at hzero
    cases s <;> cases hzero

/-! ### Differences without an overflow -/

theorem log2_shiftLeft {n : Nat} (hn : n ≠ 0) (j : Nat) : (n <<< j).log2 = n.log2 + j := by
  induction j with
  | zero => rfl
  | succ j ih =>
    have hne : n <<< j ≠ 0 := by
      rw [Nat.shiftLeft_eq]
      exact Nat.mul_ne_zero hn (Nat.two_pow_pos j).ne'
    rw [Nat.shiftLeft_succ, Nat.log2_two_mul hne, ih, Nat.add_assoc]

theorem log2_mono {a b : Nat} (h : a ≤ b) : a.log2 ≤ b.log2 := by
  rw [Nat.log2_eq_log_two, Nat.log2_eq_log_two]
  exact Nat.log_mono_right h

theorem log2_add_le (a b : Nat) : (a + b).log2 ≤ max a.log2 b.log2 + 1 := by
  rcases Nat.eq_zero_or_pos (max a b) with hzero | hpos
  · obtain ⟨rfl, rfl⟩ : a = 0 ∧ b = 0 := by omega
    decide
  · have hdouble : (a + b).log2 ≤ (2 * max a b).log2 := log2_mono (by omega)
    rw [Nat.log2_two_mul hpos.ne'] at hdouble
    rcases Nat.le_total a b with h | h
    · rw [Nat.max_eq_right h] at hdouble
      omega
    · rw [Nat.max_eq_left h] at hdouble
      omega

theorem within_normalize {k m e : Int} (s : Sign) (he : e < k) (hm : e + m.natAbs.log2 - 23 < k) (hk : -149 < k) :
    Within k (UnpackedFloat.normalize .binary32 m e s) := by
  have hround (t : Sign) {n : Nat} (hn : n = m.natAbs) (hne : n ≠ 0) :
      Within k (UnpackedFloat.round .binary32 t n e) := by
    subst hn
    unfold UnpackedFloat.round decreaseExponent
    refine within_round t .exact (by omega) ?_ hk
    rw [log2_shiftLeft hne]
    omega
  unfold UnpackedFloat.normalize
  split
  · next h =>
    have hneg := Std.compare_eq_lt.mp h
    exact hround _ (by omega) (by omega)
  · exact .inl ⟨s, rfl⟩
  · next h =>
    have hpos := Std.compare_eq_gt.mp h
    exact hround _ (by omega) (by omega)

theorem natAbs_apply_sub (s t : Sign) (a b : Nat) : (s.apply (a : Int) - t.apply (b : Int)).natAbs ≤ a + b := by
  cases s <;> cases t <;> simp only [Sign.apply] <;> omega

theorem Below.sub {k : Int} (hx : Below k x) (hy : Below k y) (hlo : -152 < k) (hhi : k ≤ 101) :
    Below (k + 3) (x - y) := by
  show Within _ (Float32.Model.pack (UnpackedFloat.sub .binary32 x.toModel.unpack y.toModel.unpack)).unpack
  refine within_pack ?_ (by omega) (by omega)
  obtain ⟨s, hx⟩ | ⟨s, m, e, hm, hx, he⟩ := hx <;> obtain ⟨t, hy⟩ | ⟨t, n, f, hn, hy, hf⟩ := hy <;> rw [hx, hy]
  · cases s <;> cases t <;> exact .inl ⟨_, rfl⟩
  · exact .inr ⟨_, _, _, _, rfl, by omega⟩
  · exact .inr ⟨_, _, _, _, rfl, by omega⟩
  · -- Both are written with the lesser exponent, and the difference has one more digit than the longer one.
    have hm' : m.log2 < 24 := (Nat.log2_lt hm.ne').mpr (unpack_finite_lt hx)
    have hn' : n.log2 < 24 := (Nat.log2_lt hn.ne').mpr (unpack_finite_lt hy)
    have hlog := (log2_mono (natAbs_apply_sub s t (m <<< (e - min e f).toNat) (n <<< (f - min e f).toNat))).trans
      (log2_add_le _ _)
    rw [log2_shiftLeft hm.ne', log2_shiftLeft hn.ne'] at hlog
    exact within_normalize .positive (by omega) (by omega) (by omega)

theorem Below.mono {k l : Int} (h : Below k x) (hkl : k ≤ l) : Below l x :=
  h.imp_right fun ⟨s, m, e, hm, hx, he⟩ => ⟨s, m, e, hm, hx, he.trans hkl⟩

theorem below_of_le {m : Nat} {k : Int} {hm : 0 < m} (hx : 0 ≤ x) (hle : x ≤ y)
    (hy : y.toModel.unpack = .finite .positive m k hm) : Below k x := by
  have hfinite := isFinite_of_between hx hle rfl (isFinite_iff.mpr (.inr ⟨_, _, _, _, hy⟩))
  obtain ⟨s, hx'⟩ | ⟨s, n, e, hn, hx'⟩ := isFinite_iff.mp hfinite
  · exact .inl ⟨s, hx'⟩
  · refine .inr ⟨s, n, e, hn, hx', ?_⟩
    cases s with
    | positive =>
      obtain ⟨o, ho, hle⟩ := le_iff_compare.mp hle
      rw [hx', hy] at ho
      cases ho
      exact exponent_le_of_then hle
    | negative =>
      obtain ⟨o, ho, hle⟩ := le_iff_compare.mp hx
      rw [show (0 : Float32).toModel.unpack = .zero .positive from rfl, hx'] at ho
      cases ho
      cases hle

end NpcMind.Single
