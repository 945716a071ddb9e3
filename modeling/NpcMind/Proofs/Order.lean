import Mathlib
import NpcMind.Proofs.Singles

/-!
# Numbers in order, and lists sorted by them

The numbers that are not NaN are in order by a height, so what is known of linear orders holds of them. A
list that is sorted by descending keys is determined by the order of its ties. Sorting leaves ties as they
were, hence sorting one more entry at the end of a list puts it in front of those with smaller keys, and
nowhere else.
-/

namespace NpcMind

/-! ### Heights -/

namespace Single

open Float.Model Float.Model.UnpackedFloat

variable {x y z : Float32} {u v : UnpackedFloat} {b : BitVec 32}

/-- How far a number is from zero: its bits, but for the sign. -/
def reach : UnpackedFloat → ℤ
  | .finite _ m e _ => (e + 149) * 8388608 + m
  | .infinity _ => 2139095040
  | _ => 0

/-- The height of an unpacked number among all numbers. -/
def level (u : UnpackedFloat) : ℤ :=
  match signOf u with
  | .positive => reach u
  | .negative => -reach u

/-- The height of a number among all numbers. The two zeros are at one height, with the NaN. -/
def height (x : Float32) : ℤ := level x.toModel.unpack

/-- A number as unpacking gives it. Only with the least exponent the mantissa may lack its first bit. -/
def Canonical : UnpackedFloat → Prop
  | .finite _ m e _ => -149 ≤ e ∧ e ≤ 104 ∧ m < 16777216 ∧ (-149 < e → 8388608 ≤ m)
  | _ => True

theorem then_eq_lt {e f : ℤ} {m n : ℕ} :
    (compare e f).then (compare m n) = .lt ↔ e < f ∨ e = f ∧ m < n := by
  rw [Ordering.then_eq_lt, compare_lt_iff_lt, compare_eq_iff_eq, compare_lt_iff_lt]

theorem then_eq_gt {e f : ℤ} {m n : ℕ} :
    (compare e f).then (compare m n) = .gt ↔ f < e ∨ e = f ∧ n < m := by
  rw [Ordering.then_eq_gt, compare_gt_iff_gt, compare_eq_iff_eq, compare_gt_iff_gt]

theorem compare_eq_lt_iff (hu : u ≠ .notANumber) (hv : v ≠ .notANumber) (hcu : Canonical u)
    (hcv : Canonical v) : u.compare v = some .lt ↔ level u < level v := by
  have hsign : compare Sign.negative Sign.positive = .lt := rfl
  rcases u with (_ | _) | _ | (_ | _) | ⟨_ | _, m, e, hm⟩ <;>
    rcases v with (_ | _) | _ | (_ | _) | ⟨_ | _, n, f, hn⟩ <;>
    simp_all [UnpackedFloat.compare, then_eq_lt, then_eq_gt, level, reach, signOf, Canonical]
  all_goals omega

theorem toNat_bits (b : BitVec 32) : b.toNat = (@unpackSign .binary32 b).toNat * 2147483648 +
    (@unpackExponent .binary32 b).toNat * 8388608 + (@unpackMantissa .binary32 b).toNat := by
  have hb := b.isLt
  simp only [unpackSign, unpackExponent, unpackMantissa, BitVec.toNat_cast, BitVec.extractLsb_toNat,
    Nat.shiftRight_eq_div_pow]
  norm_num
  omega

/-- What the bits of a number are: its sign, and its reach. -/
theorem unpack_spec (h : UnpackedFloat.unpack .binary32 b ≠ .notANumber) :
    Canonical (UnpackedFloat.unpack .binary32 b) ∧
    signOf (UnpackedFloat.unpack .binary32 b) = Sign.ofBitVec (@unpackSign .binary32 b) ∧
    reach (UnpackedFloat.unpack .binary32 b) =
      (@unpackExponent .binary32 b).toNat * 8388608 + (@unpackMantissa .binary32 b).toNat := by
  have hexponent : (@unpackExponent .binary32 b).toNat < 256 := (@unpackExponent .binary32 b).isLt
  have hmantissa : (@unpackMantissa .binary32 b).toNat < 8388608 := (@unpackMantissa .binary32 b).isLt
  have hbias : Format.binary32.exponentBias = 127 := rfl
  unfold UnpackedFloat.unpack at h ⊢
  dsimp only at h ⊢
  by_cases htop : @unpackExponent .binary32 b = -1#8
  · rw [if_pos htop] at h ⊢
    by_cases hzero : @unpackMantissa .binary32 b = 0#23
    · rw [if_pos hzero, htop, hzero]
      exact ⟨trivial, rfl, rfl⟩
    · rw [if_neg hzero] at h
      exact absurd rfl h
  rw [if_neg htop, hbias]
  by_cases hleast : @unpackExponent .binary32 b = 0#8
  · rw [if_pos hleast]
    by_cases hzero : @unpackMantissa .binary32 b = 0#23
    · rw [dif_pos hzero, hleast, hzero]
      exact ⟨trivial, rfl, rfl⟩
    · have hlowest : ((0#8).toNat : ℤ) - ((127 : ℕ) + (23 : ℕ)) + 1 = -149 := by decide
      rw [dif_neg hzero, hleast]
      refine ⟨?_, rfl, ?_⟩
      · show -149 ≤ _ ∧ _ ≤ 104 ∧ (@unpackMantissa .binary32 b).toNat < 16777216 ∧ _
        rw [hlowest]
        exact ⟨le_rfl, by decide, by omega, fun h => absurd h (by decide)⟩
      · show (_ + 149) * 8388608 + ((@unpackMantissa .binary32 b).toNat : ℤ) = _
        rw [hlowest]
        rfl
  · rw [if_neg hleast]
    have hpos : (@unpackExponent .binary32 b).toNat ≠ 0 := fun h => hleast (BitVec.eq_of_toNat_eq h)
    have hbelow : (@unpackExponent .binary32 b).toNat ≠ 255 := fun h => htop (BitVec.eq_of_toNat_eq h)
    have hwhole : (1#1 ++ @unpackMantissa .binary32 b).toNat =
        8388608 + (@unpackMantissa .binary32 b).toNat := by
      rw [BitVec.toNat_append, ← Nat.shiftLeft_add_eq_or_of_lt (@unpackMantissa .binary32 b).isLt]
      rfl
    refine ⟨?_, rfl, ?_⟩
    · show -149 ≤ ((@unpackExponent .binary32 b).toNat : ℤ) - (127 + 23) ∧
        ((@unpackExponent .binary32 b).toNat : ℤ) - (127 + 23) ≤ 104 ∧
        (1#1 ++ @unpackMantissa .binary32 b).toNat < 16777216 ∧
        (_ → 8388608 ≤ (1#1 ++ @unpackMantissa .binary32 b).toNat)
      rw [hwhole]
      exact ⟨by omega, by omega, by omega, fun _ => by omega⟩
    · show (((@unpackExponent .binary32 b).toNat : ℤ) - (127 + 23) + 149) * 8388608 +
        ((1#1 ++ @unpackMantissa .binary32 b).toNat : ℤ) = _
      rw [hwhole]
      push_cast
      ring

theorem ne_nan_of_lt (h : x < y) : x.isNaN = false ∧ y.isNaN = false :=
  ne_nan_of_le (le_iff_compare.mpr ⟨.lt, lt_iff_compare.mp h, rfl⟩)

theorem lt_iff_height (hx : x.isNaN = false) (hy : y.isNaN = false) : x < y ↔ height x < height y := by
  rw [isNaN_eq_false] at hx hy
  rw [lt_iff_compare]
  exact compare_eq_lt_iff hx hy (unpack_spec hx).1 (unpack_spec hy).1

theorem le_iff_height (hx : x.isNaN = false) (hy : y.isNaN = false) : x ≤ y ↔ height x ≤ height y := by
  rw [← not_lt, ← lt_iff_height hy hx]
  exact ⟨not_lt_of_le, le_of_not_lt hx hy⟩

theorem lt_trans (hxy : x < y) (hyz : y < z) : x < z := by
  obtain ⟨hx, hy⟩ := ne_nan_of_lt hxy
  obtain ⟨-, hz⟩ := ne_nan_of_lt hyz
  rw [lt_iff_height hx hy] at hxy
  rw [lt_iff_height hy hz] at hyz
  exact (lt_iff_height hx hz).mpr (hxy.trans hyz)

theorem le_trans (hxy : x ≤ y) (hyz : y ≤ z) : x ≤ z := by
  obtain ⟨hx, hy⟩ := ne_nan_of_le hxy
  obtain ⟨-, hz⟩ := ne_nan_of_le hyz
  rw [le_iff_height hx hy] at hxy
  rw [le_iff_height hy hz] at hyz
  exact (le_iff_height hx hz).mpr (hxy.trans hyz)

theorem lt_of_lt_of_le (hxy : x < y) (hyz : y ≤ z) : x < z := by
  obtain ⟨hx, hy⟩ := ne_nan_of_lt hxy
  obtain ⟨-, hz⟩ := ne_nan_of_le hyz
  rw [lt_iff_height hx hy] at hxy
  rw [le_iff_height hy hz] at hyz
  exact (lt_iff_height hx hz).mpr (hxy.trans_le hyz)

theorem lt_of_le_of_lt (hxy : x ≤ y) (hyz : y < z) : x < z := by
  obtain ⟨hx, hy⟩ := ne_nan_of_le hxy
  obtain ⟨-, hz⟩ := ne_nan_of_lt hyz
  rw [le_iff_height hx hy] at hxy
  rw [lt_iff_height hy hz] at hyz
  exact (lt_iff_height hx hz).mpr (hxy.trans_lt hyz)

theorem not_lt_of_infinite (hx : x.toModel.unpack = .infinity .positive) : ¬ x < y := by
  intro hlt
  rw [lt_iff_compare, hx] at hlt
  cases hy : y.toModel.unpack with
  | notANumber | zero | finite =>
    rw [hy] at hlt
    cases hlt
  | infinity s =>
    rw [hy] at hlt
    cases s <;> cases hlt

/-! ### Ranks -/

/-- The sign and the reach of a number are its bits. -/
theorem toBits_cases (hx : x.isNaN = false) : ∃ r : ℕ, r < 2147483648 ∧
    (height x = r ∧ x.toBits.toNat = r ∨ height x = -r ∧ x.toBits.toNat = 2147483648 + r) := by
  obtain ⟨-, hsign, hreach⟩ := unpack_spec (isNaN_eq_false.mp hx)
  have hbits : x.toBits.toNat = _ := toNat_bits x.toModel.toBits.toBitVec
  have hexponent : (@unpackExponent .binary32 x.toModel.toBits.toBitVec).toNat < 256 :=
    (@unpackExponent .binary32 x.toModel.toBits.toBitVec).isLt
  have hmantissa : (@unpackMantissa .binary32 x.toModel.toBits.toBitVec).toNat < 8388608 :=
    (@unpackMantissa .binary32 x.toModel.toBits.toBitVec).isLt
  have hsigned : signOf x.toModel.unpack = _ := hsign
  have hheight : reach x.toModel.unpack = _ := hreach
  unfold height level
  generalize (@unpackExponent .binary32 x.toModel.toBits.toBitVec).toNat = e at *
  generalize (@unpackMantissa .binary32 x.toModel.toBits.toBitVec).toNat = m at *
  refine ⟨e * 8388608 + m, by omega, ?_⟩
  rcases BitVec.eq_zero_or_eq_one (@unpackSign .binary32 x.toModel.toBits.toBitVec) with h | h
  · rw [h] at hsigned hbits
    rw [hsigned, hheight, hbits]
    exact .inl ⟨rfl, by norm_num⟩
  · rw [h] at hsigned hbits
    rw [hsigned, hheight, hbits]
    exact .inr ⟨rfl, Nat.add_assoc _ _ _⟩

/-- The rank of a number is its bits, turned so as to count upwards. -/
theorem toNat_rank (x : Float32) : (rank x).toNat =
    if x.toBits.toNat < 2147483648 then 2147483648 + x.toBits.toNat else 4294967295 - x.toBits.toNat := by
  have hlt : x.toBits < 0x80000000 ↔ x.toBits.toNat < 2147483648 := UInt32.lt_iff_toNat_lt
  simp only [rank, hlt]
  split
  · next h =>
    rw [UInt32.toNat_or, Nat.lor_comm]
    exact (Nat.shiftLeft_add_eq_or_of_lt (i := 31) h 1).symm
  · exact UInt32.toNat_not _

/-- A number comes before another one in the total order: it is smaller, or they are the negative and the
positive zero. -/
def Precedes (x y : Float32) : Prop := x < y ∨ x = -0 ∧ y = 0

theorem eq_iff_toBits : x = y ↔ x.toBits.toNat = y.toBits.toNat := by
  rw [UInt32.toNat_inj, Float32.toBits_inj]

/-- **The ranks of numbers are their total order.** -/
theorem rank_lt_iff (hx : x.isNaN = false) (hy : y.isNaN = false) :
    (rank x).toNat < (rank y).toNat ↔ Precedes x y := by
  have hzero : (0 : Float32).toBits.toNat = 0 := rfl
  have hminus : (-0 : Float32).toBits.toNat = 2147483648 := rfl
  rw [Precedes, lt_iff_height hx hy, eq_iff_toBits, eq_iff_toBits, hzero, hminus, toNat_rank, toNat_rank]
  obtain ⟨r, hr, hx⟩ := toBits_cases hx
  obtain ⟨s, hs, hy⟩ := toBits_cases hy
  split <;> split <;> omega

theorem rank_inj : (rank x).toNat = (rank y).toNat ↔ x = y := by
  rw [eq_iff_toBits, toNat_rank, toNat_rank]
  have hx := x.toBits.toNat_lt
  have hy := y.toBits.toNat_lt
  split <;> split <;> omega

/-- Only a NaN has all bits of its exponent and one of its mantissa. -/
theorem isNaN_iff_bits : x.isNaN = true ↔ @unpackExponent .binary32 x.toModel.toBits.toBitVec = -1#8 ∧
    @unpackMantissa .binary32 x.toModel.toBits.toBitVec ≠ 0#23 := by
  have hnan : x.isNaN = true ↔ UnpackedFloat.unpack .binary32 x.toModel.toBits.toBitVec = .notANumber :=
    UnpackedFloat.isNaN_iff
  rw [hnan]
  unfold UnpackedFloat.unpack
  dsimp only
  split
  · next hexponent =>
    split
    · next hmantissa => exact ⟨UnpackedFloat.noConfusion, fun h => absurd hmantissa h.2⟩
    · next hmantissa => exact ⟨fun _ => ⟨hexponent, hmantissa⟩, fun _ => rfl⟩
  · next hexponent =>
    refine ⟨fun h => ?_, fun h => absurd h.1 hexponent⟩
    split at h
    · split at h <;> cases h
    · cases h

/-- **NaN ranks after every number.** -/
theorem rank_lt_of_isNaN (hx : x.isNaN = false) (hy : y.isNaN = true) : (rank x).toNat < (rank y).toNat := by
  obtain ⟨hexponent, hmantissa⟩ := isNaN_iff_bits.mp hy
  have hnan : y.toBits.toNat = 2143289344 :=
    congrArg BitVec.toNat (y.toModel.valid.eq_packedNaN hexponent hmantissa)
  have hnumber : x.toBits.toNat < 2147483648 → x.toBits.toNat ≤ 2139095040 := by
    have hbits : x.toBits.toNat = _ := toNat_bits x.toModel.toBits.toBitVec
    have hfinite := mt isNaN_iff_bits.mpr (Bool.not_eq_true _ ▸ hx)
    have hexponent := (@unpackExponent .binary32 x.toModel.toBits.toBitVec).isLt
    have hmantissa := (@unpackMantissa .binary32 x.toModel.toBits.toBitVec).isLt
    rw [not_and_not_right, ← BitVec.toNat_inj, ← BitVec.toNat_inj] at hfinite
    have hall : (-1#8).toNat = 255 := rfl
    have hnone : (0#23).toNat = 0 := rfl
    rw [hall, hnone] at hfinite
    generalize (@unpackSign .binary32 x.toModel.toBits.toBitVec).toNat = s at *
    generalize (@unpackExponent .binary32 x.toModel.toBits.toBitVec).toNat = e at *
    generalize (@unpackMantissa .binary32 x.toModel.toBits.toBitVec).toNat = m at *
    have hexponent : e < 256 := hexponent
    have hmantissa : m < 8388608 := hmantissa
    omega
  rw [toNat_rank, toNat_rank, hnan, if_pos (by decide : 2143289344 < 2147483648)]
  split <;> omega

end Single

/-! ### Sorting with ties -/

section Sorting

variable {α κ : Type} [LinearOrder κ] {key : α → κ} {l l' high low : List α} {a m : α}

/-- The keys of the list are in descending order. -/
def Descending (key : α → κ) (l : List α) : Prop := l.Pairwise fun a b => key b ≤ key a

/-- The list in descending order of its keys, with ties as they were. -/
def ranked (key : α → κ) (l : List α) : List α := l.mergeSort fun a b => key b ≤ key a

theorem decide_key_trans (key : α → κ) (a b c : α) (hab : decide (key b ≤ key a) = true)
    (hbc : decide (key c ≤ key b) = true) : decide (key c ≤ key a) = true :=
  decide_eq_true ((of_decide_eq_true hbc).trans (of_decide_eq_true hab))

theorem decide_key_total (key : α → κ) (a b : α) : (decide (key b ≤ key a) || decide (key a ≤ key b)) = true := by
  simp [le_total]

theorem descending_ranked (key : α → κ) (l : List α) : Descending key (ranked key l) := by
  have hsorted := List.pairwise_mergeSort (decide_key_trans key) (decide_key_total key) l
  exact hsorted.imp of_decide_eq_true

/-- Sorting leaves ties in their order. -/
theorem filter_ranked (key : α → κ) (l : List α) (v : κ) :
    (ranked key l).filter (key · = v) = l.filter (key · = v) := by
  have htied : (l.filter (key · = v)).Pairwise fun a b => decide (key b ≤ key a) = true := by
    refine List.pairwise_of_forall_mem_list fun a ha b hb => decide_eq_true (le_of_eq ?_)
    rw [of_decide_eq_true (List.mem_filter.mp ha).2, of_decide_eq_true (List.mem_filter.mp hb).2]
  have hsub : (l.filter (key · = v)).Sublist (ranked key l) :=
    List.sublist_mergeSort (decide_key_trans key) (decide_key_total key) htied List.filter_sublist
  have hfilter := hsub.filter (key · = v)
  rw [List.filter_filter] at hfilter
  simp only [Bool.and_self] at hfilter
  exact (hfilter.eq_of_length ((List.mergeSort_perm l _).filter _).length_eq.symm).symm

/-- **A descending list is determined by the order of its ties.** -/
theorem Descending.eq_of_filter_eq (h : Descending key l) (h' : Descending key l')
    (heq : ∀ v, l.filter (key · = v) = l'.filter (key · = v)) : l = l' := by
  induction l generalizing l' with
  | nil =>
    cases l' with
    | nil => rfl
    | cons b l' => simpa using heq (key b)
  | cons a l ih =>
    cases l' with
    | nil => simpa using heq (key a)
    | cons b l' =>
      have hmem (c : α) : c ∈ a :: l ↔ c ∈ b :: l' := by simpa using congrArg (c ∈ ·) (heq (key c))
      obtain ⟨hall, htail⟩ := List.pairwise_cons.mp h
      obtain ⟨hall', htail'⟩ := List.pairwise_cons.mp h'
      -- Each head is in the other list, where nothing is above that list's head.
      have hkey : key a = key b := by
        refine le_antisymm ?_ ?_
        · rcases List.mem_cons.mp ((hmem a).mp List.mem_cons_self) with rfl | ha
          · exact le_rfl
          · exact hall' a ha
        · rcases List.mem_cons.mp ((hmem b).mpr List.mem_cons_self) with rfl | hb
          · exact le_rfl
          · exact hall b hb
      have hhead : a = b := by
        have htop := heq (key a)
        simp only [List.filter_cons, hkey, decide_true, if_true, List.cons.injEq] at htop
        exact htop.1
      subst hhead
      refine congrArg (a :: ·) (ih htail htail' fun v => ?_)
      by_cases hv : key a = v
      · simpa [List.filter_cons, hv] using heq v
      · simpa [List.filter_cons, hv] using heq v

/-- Sorting puts the larger keys first, and of equal keys what was first. -/
theorem pairwise_ranked {r : α → α → Prop} (h : l.Pairwise r) :
    (ranked key l).Pairwise fun a b => key b < key a ∨ key a = key b ∧ r a b := by
  refine List.pairwise_iff_forall_sublist.mpr fun {a b} hab => ?_
  have hle : key b ≤ key a := List.pairwise_iff_forall_sublist.mp (descending_ranked key l) hab
  rcases hle.lt_or_eq with hlt | heq
  · exact .inl hlt
  · have htied : [a, b].Sublist (l.filter (key · = key a)) := by
      rw [← filter_ranked]
      simpa [heq] using hab.filter (key · = key a)
    exact .inr ⟨heq.symm, List.pairwise_iff_forall_sublist.mp h (htied.trans List.filter_sublist)⟩

/-- The smaller keys of a descending list are behind all others. -/
theorem Descending.split (h : Descending key l) (v : κ) :
    l.filter (v ≤ key ·) ++ l.filter (key · < v) = l := by
  induction l with
  | nil => rfl
  | cons a l ih =>
    obtain ⟨hall, htail⟩ := List.pairwise_cons.mp h
    by_cases ha : key a < v
    · have hhigh : l.filter (v ≤ key ·) = [] :=
        List.filter_eq_nil_iff.mpr fun b hb => by simpa using (hall b hb).trans_lt ha
      have hlow : l.filter (key · < v) = l :=
        List.filter_eq_self.mpr fun b hb => decide_eq_true ((hall b hb).trans_lt ha)
      simp [ha, hhigh, hlow]
    · simpa [List.filter_cons, ha, not_lt.mp ha] using ih htail

/-! ### One more entry -/

/-- The list with one more entry, in front of those with smaller keys. -/
def enter (key : α → κ) (m : α) (l : List α) : List α :=
  l.filter (key m ≤ key ·) ++ m :: l.filter (key · < key m)

theorem enter_append (hhigh : ∀ a ∈ high, key m ≤ key a) (hlow : ∀ a ∈ low, key a < key m) :
    enter key m (high ++ low) = high ++ m :: low := by
  have h₁ : low.filter (key m ≤ key ·) = [] := List.filter_eq_nil_iff.mpr fun a ha => by simpa using hlow a ha
  have h₂ : high.filter (key · < key m) = [] := List.filter_eq_nil_iff.mpr fun a ha => by simpa using hhigh a ha
  have h₃ : high.filter (key m ≤ key ·) = high := List.filter_eq_self.mpr fun a ha => decide_eq_true (hhigh a ha)
  have h₄ : low.filter (key · < key m) = low := List.filter_eq_self.mpr fun a ha => decide_eq_true (hlow a ha)
  rw [enter, List.filter_append, List.filter_append, h₁, h₂, h₃, h₄, List.append_nil, List.nil_append]

/-- Behind a smaller key there is nothing to look for. -/
theorem enter_concat_of_lt (l : List α) (h : key a < key m) : enter key m (l ++ [a]) = enter key m l ++ [a] := by
  simp [enter, h, h.not_ge]

/-- An entry that is no larger than the last one is the last one. -/
theorem Descending.enter_concat_of_le (hl : Descending key (l ++ [a])) (h : key m ≤ key a) :
    enter key m (l ++ [a]) = l ++ [a] ++ [m] := by
  have hall : ∀ b ∈ l ++ [a], key m ≤ key b := by
    intro b hb
    rcases List.mem_append.mp hb with hb | hb
    · exact h.trans ((List.pairwise_append.mp hl).2.2 b hb a (List.mem_singleton_self a))
    · rw [List.mem_singleton.mp hb]
      exact h
  have hnone : ∀ b ∈ ([] : List α), key b < key m := fun b hb => nomatch hb
  have henter := enter_append hall hnone
  rwa [List.append_nil] at henter

theorem Descending.entered (h : Descending key l) (m : α) : Descending key (enter key m l) := by
  unfold enter Descending
  rw [List.pairwise_append, List.pairwise_cons]
  refine ⟨h.filter _, ⟨fun b hb => ?_, h.filter _⟩, fun a ha b hb => ?_⟩
  · exact (of_decide_eq_true (List.mem_filter.mp hb).2).le
  · have ha := of_decide_eq_true (List.mem_filter.mp ha).2
    rcases List.mem_cons.mp hb with rfl | hb
    · exact ha
    · exact (of_decide_eq_true (List.mem_filter.mp hb).2).le.trans ha

theorem Descending.length_enter (h : Descending key l) (m : α) : (enter key m l).length = l.length + 1 := by
  have hlen := congrArg List.length (h.split (key m))
  rw [List.length_append] at hlen
  rw [enter, List.length_append, List.length_cons]
  omega

theorem Descending.filter_enter (h : Descending key l) (m : α) (v : κ) :
    (enter key m l).filter (key · = v) = l.filter (key · = v) ++ [m].filter (key · = v) := by
  conv_rhs => rw [← h.split (key m)]
  unfold enter
  rw [List.filter_append, List.filter_append, List.append_assoc, List.filter_cons]
  by_cases hv : key m = v
  · have hnone : (l.filter (key · < key m)).filter (key · = v) = [] := by
      refine List.filter_eq_nil_iff.mpr fun a ha => ?_
      simpa [← hv] using (of_decide_eq_true (List.mem_filter.mp ha).2).ne
    rw [hnone]
    simp [hv]
  · simp [hv]

/-- **Sorting one more entry** puts it in front of those with smaller keys. -/
theorem ranked_concat (key : α → κ) (l : List α) (m : α) :
    ranked key (l ++ [m]) = enter key m (ranked key l) := by
  have hsorted := descending_ranked key l
  refine (descending_ranked key _).eq_of_filter_eq (hsorted.entered m) fun v => ?_
  rw [hsorted.filter_enter, filter_ranked, filter_ranked, List.filter_append]

/-- What is behind the first entries of a descending list stays behind. -/
theorem Descending.take_enter (h : Descending key l) (m : α) (n : ℕ) :
    (enter key m (l.take n)).take n = (enter key m l).take n := by
  have hhigh : ∀ a ∈ l.filter (key m ≤ key ·), key m ≤ key a := fun a ha =>
    of_decide_eq_true (List.mem_filter.mp ha).2
  have hlow : ∀ a ∈ l.filter (key · < key m), key a < key m := fun a ha =>
    of_decide_eq_true (List.mem_filter.mp ha).2
  rw [← h.split (key m), List.take_append, enter_append hhigh hlow,
    enter_append (fun a ha => hhigh a (List.mem_of_mem_take ha)) fun a ha => hlow a (List.mem_of_mem_take ha)]
  generalize l.filter (key m ≤ key ·) = high
  generalize l.filter (key · < key m) = low
  have hroom : n - min n high.length = n - high.length := by omega
  rw [List.take_append, List.take_append, List.take_take, Nat.min_self, List.length_take, hroom]
  cases n - high.length with
  | zero => rfl
  | succ k => simp [List.take_take]

end Sorting

end NpcMind
