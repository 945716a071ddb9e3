import NpcMind.Kernel.Product
import NpcMind.Proofs.Outcome

/-!
# Products of matrices

Both ways of multiplying matrices give the same buffer. Neither a rounding nor a NaN can tell them apart, for
they add the same terms in the same order, and nothing is assumed here of sums and products. What was in the
buffer before does not matter, and its filling is zero afterwards. The one exception are sizes that do not fit
into 64 bits: there one way may look at an entry that has no place in its buffer, and the other may not. A shape
past 64 bits always has a row that starts past the end of the buffer, so whichever loop comes there fails.
-/

namespace NpcMind

open Outcome

namespace Kernel

variable {α : Type}

/-! ### Shapes -/

/-- The shapes of a product and its factors fit together. -/
structure Conform (c a b : Tensor α) : Prop where
  inner : a.cols = b.rows
  rows : a.rows = c.rows
  cols : b.cols = c.cols

theorem expectShapes_cases (c a b : Tensor α) : Conform c a b ∧ expectShapes c a b = .ok () ∨
    ¬ Conform c a b ∧ ∃ operation m n, expectShapes c a b = .error (.dimension operation m n) := by
  by_cases hinner : a.cols = b.rows
  · by_cases hrows : a.rows = c.rows
    · by_cases hcols : b.cols = c.cols
      · refine .inl ⟨⟨hinner, hrows, hcols⟩, ?_⟩
        simp only [expectShapes, hinner, hrows, hcols, expectSize_ok, bind, Except.bind]
      · refine .inr ⟨fun h => hcols h.cols, "matmul cols", b.cols, c.cols, ?_⟩
        simp only [expectShapes, hinner, hrows, expectSize_ok, bind, Except.bind]
        exact if_neg hcols
    · refine .inr ⟨fun h => hrows h.rows, "matmul rows", a.rows, c.rows, ?_⟩
      simp only [expectShapes, hinner, expectSize_ok, bind, Except.bind]
      rw [expectSize, if_neg hrows]
  · refine .inr ⟨fun h => hinner h.inner, "matmul inner", a.cols, b.rows, ?_⟩
    simp only [expectShapes, bind, Except.bind]
    rw [expectSize, if_neg hinner]

theorem expectShapes_ok {c a b : Tensor α} (h : Conform c a b) : expectShapes c a b = .ok () := by
  rcases expectShapes_cases c a b with ⟨-, hok⟩ | ⟨h', -⟩
  · exact hok
  · exact absurd h h'

/-! ### Loops -/

section Steps

variable {σ : Type} {step : Nat → σ → Outcome σ} {s : σ} {e : Error} {P : σ → Prop} {i n : Nat}

theorem stepsFrom_succ (step : Nat → σ → Outcome σ) (i n : Nat) (s : σ) :
    stepsFrom step i (n + 1) s = stepsFrom step i n s >>= step (i + n) := by
  induction n generalizing i s with
  | zero =>
    show (step i s >>= fun s => .ok s) = step i s
    cases step i s <;> rfl
  | succ n ih =>
    rw [stepsFrom, stepsFrom]
    cases step i s with
    | error e => rfl
    | ok s' =>
      show stepsFrom step (i + 1) (n + 1) s' = stepsFrom step (i + 1) n s' >>= step (i + (n + 1))
      rw [ih, show i + 1 + n = i + (n + 1) by omega]

theorem steps_succ (n : Nat) (s : σ) (step : Nat → σ → Outcome σ) :
    steps (n + 1) s step = steps n s step >>= step n := by
  rw [steps, stepsFrom_succ, Nat.zero_add, steps]

/-- A loop whose states are known. -/
theorem steps_ok (state : Nat → σ) (h : ∀ i < n, step i (state i) = .ok (state (i + 1))) :
    steps n (state 0) step = .ok (state n) := by
  induction n with
  | zero => rfl
  | succ n ih =>
    rw [steps_succ, ih fun i hi => h i (by omega)]
    exact h n (by omega)

theorem failsOr_steps (hs : P s) (hstep : ∀ i s, P s → FailsOr e P (step i s)) (n : Nat) :
    FailsOr e P (steps n s step) := by
  induction n with
  | zero => exact .ok hs
  | succ n ih =>
    rw [steps_succ]
    exact ih.bind (hstep n)

/-- A loop with a step that fails from every state of the invariant. -/
theorem steps_error (hs : P s) (hstep : ∀ i s, P s → FailsOr e P (step i s)) (hi : i < n)
    (hfail : ∀ s, P s → step i s = .error e) : steps n s step = .error e := by
  induction n with
  | zero => omega
  | succ n ih =>
    rw [steps_succ]
    by_cases hlast : i = n
    · exact (failsOr_steps hs hstep n).bind_error (hlast ▸ hfail)
    · rw [ih (by omega)]
      rfl

variable {m j : Nat} {inner : Nat → Nat → σ → Outcome σ}

theorem failsOr_nested (hs : P s) (hstep : ∀ i j s, P s → FailsOr e P (inner i j s)) (m n : Nat) :
    FailsOr e P (steps m s fun i s => steps n s (inner i)) :=
  failsOr_steps hs (fun i _ hs => failsOr_steps hs (hstep i) n) m

/-- A loop within a loop, with a step of the inner one that fails from every state of the invariant. -/
theorem nested_error (hs : P s) (hstep : ∀ i j s, P s → FailsOr e P (inner i j s)) (hi : i < m) (hj : j < n)
    (hfail : ∀ s, P s → inner i j s = .error e) : steps m s (fun i s => steps n s (inner i)) = .error e :=
  steps_error hs (fun i _ hs => failsOr_steps hs (hstep i) n) hi fun _ hs => steps_error hs (hstep i) hj hfail

end Steps

/-! ### Multiples of rows -/

variable [Add α] [Mul α]

theorem plainAxpy_map {β : Type} (a : α) (f g : β → α) (ps : List β) :
    plainAxpy a (ps.map f) (ps.map g) = ps.map fun p => g p + a * f p := by
  induction ps with
  | nil => rfl
  | cons p ps ih => simp only [List.map_cons, plainAxpy, ih]

theorem axpy_lanes_map (a : α) (f g : Nat → α) (n : Nat) :
    axpy .lanes a ((Array.range n).map f) ((Array.range n).map g) = (Array.range n).map fun q => g q + a * f q := by
  simp only [axpy, laneAxpy_eq, Array.toList_map, plainAxpy_map]
  rw [← List.map_toArray, Array.toArray_toList]

end Kernel

/-! ### Buffers by row and place -/

section WriteFrom

variable {α : Type}

theorem size_writeFrom (xs : Array α) (start : Nat) (ys : List α) : (writeFrom xs start ys).size = xs.size := by
  induction ys generalizing xs start with
  | nil => rfl
  | cons y ys ih => rw [writeFrom, ih, Array.size_setIfInBounds]

theorem getElem?_writeFrom (xs : Array α) (start : Nat) (ys : List α) {p : Nat} (hp : p < xs.size) :
    (writeFrom xs start ys)[p]? = if start ≤ p ∧ p < start + ys.length then ys[p - start]? else xs[p]? := by
  induction ys generalizing xs start with
  | nil =>
    rw [writeFrom, if_neg]
    simp only [List.length_nil]
    omega
  | cons y ys ih =>
    rw [writeFrom, ih _ _ (by simpa using hp), Array.getElem?_setIfInBounds]
    grind

end WriteFrom

namespace Tensor

variable {α : Type} {t u : Tensor α} {f g : Nat → Nat → α} {i j n p : Nat}

/-- The matrix with everything in its buffer given by row and place, filling included. -/
def tabulate (t : Tensor α) (f : Nat → Nat → α) : Tensor α :=
  { t with data := (Array.range t.data.size).map fun p => f (p / t.stride) (p % t.stride) }

theorem getElem?_tabulate (f : Nat → Nat → α) (hp : p < t.data.size) :
    (t.tabulate f).data[p]? = some (f (p / t.stride) (p % t.stride)) := by
  simp [tabulate, hp]

theorem size_tabulate (t : Tensor α) (f : Nat → Nat → α) : (t.tabulate f).data.size = t.data.size := by
  simp [tabulate]

theorem eq_tabulate (hrows : u.rows = t.rows) (hcols : u.cols = t.cols) (hsize : u.data.size = t.data.size)
    (h : ∀ p < t.data.size, u.data[p]? = some (f (p / t.stride) (p % t.stride))) : u = t.tabulate f := by
  obtain ⟨rows, cols, data⟩ := u
  dsimp only at hrows hcols hsize h
  subst hrows hcols
  refine congrArg (Tensor.mk t.rows t.cols) (Array.ext_getElem? fun p => ?_)
  by_cases hp : p < t.data.size
  · rw [h p hp, ← getElem?_tabulate f hp]
    rfl
  · rw [Array.getElem?_eq_none (by omega), Array.getElem?_eq_none (by simp; omega)]

/-- The places of a row. -/
theorem place_iff {s : Nat} (h : n ≤ s) : i * s ≤ p ∧ p < i * s + n ↔ p / s = i ∧ p % s < n := by
  have hdiv := Nat.div_add_mod p s
  constructor
  · rintro ⟨hle, hlt⟩
    have hrow : p / s = i := Nat.div_eq_of_lt_le hle (by rw [Nat.succ_mul]; omega)
    rw [hrow, Nat.mul_comm] at hdiv
    exact ⟨hrow, by omega⟩
  · rintro ⟨rfl, hlt⟩
    rw [Nat.mul_comm] at hdiv
    omega

theorem mod_of_div {s : Nat} (h : p / s = i) : p % s = p - i * s := by
  have hdiv := Nat.div_add_mod p s
  rw [h, Nat.mul_comm] at hdiv
  omega

/-- The place of an entry. -/
theorem place_eq_iff {s : Nat} (hj : j < s) : i * s + j = p ↔ p / s = i ∧ p % s = j := by
  constructor
  · rintro rfl
    obtain ⟨hrow, -⟩ := (place_iff (Nat.le_refl s)).mp ⟨Nat.le_add_right _ j, Nat.add_lt_add_left hj _⟩
    rw [mod_of_div hrow]
    omega
  · rintro ⟨hrow, rfl⟩
    have hle := ((place_iff (Nat.le_refl s)).mpr ⟨hrow, hj⟩).1
    rw [mod_of_div hrow]
    omega

/-- A stretch of a row written over, no longer than the row without its filling. -/
theorem writeRow_tabulate (t : Tensor α) (f : Nat → Nat → α) (i : Nat) (h : t.cols ≤ t.stride) {ys : List α}
    (hys : ys.length ≤ t.cols) :
    { t with data := writeFrom (t.tabulate f).data (i * t.stride) ys } =
      t.tabulate fun r q => if r = i ∧ q < t.cols then ys.getD q (f r q) else f r q := by
  refine eq_tabulate rfl rfl (by rw [size_writeFrom, size_tabulate]) fun p hp => ?_
  rw [getElem?_writeFrom _ _ _ (by rwa [size_tabulate]), getElem?_tabulate f hp]
  simp only [place_iff (Nat.le_trans hys h)]
  by_cases hrow : p / t.stride = i
  · rw [← mod_of_div hrow]
    by_cases hin : p % t.stride < ys.length
    · simp [hrow, hin, Nat.lt_of_lt_of_le hin hys]
    · simp [hrow, hin]
  · simp [hrow]

theorem setRow_tabulate (t : Tensor α) (f : Nat → Nat → α) (i : Nat) (h : t.cols ≤ t.stride) (g : Nat → α) :
    (t.tabulate f).setRow i ((Array.range t.cols).map g) =
      t.tabulate fun r q => if r = i ∧ q < t.cols then g q else f r q := by
  refine (writeRow_tabulate t f i h (List.length_take_le t.cols _)).trans
    (congrArg t.tabulate (funext fun r => funext fun q => ?_))
  split
  · next hin => simp [hin.2]
  · rfl

/-! ### Sizes in 64 bits -/

/-- Neither the rows nor the buffer go past 64 bits. -/
structure Fits (t : Tensor α) : Prop where
  cols : t.cols ≤ t.stride
  size : t.rows * t.stride < UInt64.size

/-- The buffer holds every row, and nothing else. -/
structure Intact (t : Tensor α) : Prop extends t.Fits where
  whole : t.data.size = t.rows * t.stride

/-- The buffer is as long as the shape says, in 64 bits, and can be addressed. -/
structure LaidOut (t : Tensor α) : Prop where
  cols : t.cols < UInt64.size
  size : t.data.size = wrap (t.rows * t.stride)
  room : t.rows ≤ 1 ∨ t.data.size < UInt64.size / 2

theorem fits_of_cols (h : t.cols = 0) : t.Fits := by
  have hstride : t.stride = 0 := congrArg paddedStride h
  exact ⟨by omega, by simp [hstride]⟩

theorem LaidOut.intact (h : t.LaidOut) (hf : t.Fits) : t.Intact :=
  ⟨hf, h.size.trans (Nat.mod_eq_of_lt hf.size)⟩

theorem LaidOut.stride_cases (h : t.LaidOut) : t.cols ≤ t.stride ∨ t.stride = 0 := by
  have hcols := h.cols
  simp only [stride, paddedStride, wrap, laneCount, UInt64.size] at hcols ⊢
  omega

theorem stride_lt (t : Tensor α) : t.stride < UInt64.size := Nat.mod_lt _ (by decide)

/-- A shape past 64 bits has a row that starts past the end of the buffer. -/
theorem LaidOut.exists_missing (h : t.LaidOut) (hf : ¬ t.Fits) (hrows : t.rows ≠ 0) :
    ∃ r < t.rows, t.data.size ≤ t.rowStart r := by
  have hsize := h.size
  by_cases hzero : t.stride = 0
  · refine ⟨0, by omega, ?_⟩
    rw [hsize, hzero]
    exact Nat.zero_le _
  · have hpast : UInt64.size ≤ t.rows * t.stride :=
      Nat.le_of_not_lt fun hlt => hf ⟨h.stride_cases.resolve_right hzero, hlt⟩
    have hstride := t.stride_lt
    have hroom : t.data.size < UInt64.size / 2 := by
      refine h.room.resolve_left fun hone => ?_
      have hle := Nat.mul_le_mul_right t.stride hone
      omega
    -- The first row that starts past the end: its start has not wrapped yet.
    have hdiv := Nat.div_add_mod' t.data.size t.stride
    have hmod := Nat.mod_lt t.data.size (Nat.pos_of_ne_zero hzero)
    have hstart : (t.data.size / t.stride + 1) * t.stride = t.data.size / t.stride * t.stride + t.stride :=
      Nat.succ_mul _ _
    have hword : (t.data.size / t.stride + 1) * t.stride < UInt64.size := by
      by_cases hfirst : t.data.size < t.stride
      · rw [Nat.div_eq_of_lt hfirst]
        omega
      · simp only [UInt64.size] at hroom ⊢
        omega
    refine ⟨t.data.size / t.stride + 1, Nat.lt_of_mul_lt_mul_right (Nat.lt_of_lt_of_le hword hpast), ?_⟩
    rw [rowStart, wrap, Nat.mod_eq_of_lt hword]
    omega

/-! ### Entries in their places -/

theorem Intact.rowEnd (h : t.Intact) (hi : i < t.rows) : i * t.stride + t.cols ≤ t.data.size := by
  have hcols := h.cols
  have hrows := Nat.mul_le_mul_right t.stride hi
  rw [Nat.succ_mul, ← h.whole] at hrows
  omega

theorem Intact.wrap_eq (h : t.Intact) (hp : p ≤ t.data.size) : wrap p = p :=
  Nat.mod_eq_of_lt (Nat.lt_of_le_of_lt (h.whole ▸ hp) h.size)

theorem Intact.tabulate (h : t.Intact) (f : Nat → Nat → α) : (t.tabulate f).Intact :=
  ⟨⟨h.cols, h.size⟩, (size_tabulate t f).trans h.whole⟩

theorem Intact.get?_eq [OfNat α 0] (h : t.Intact) (hi : i < t.rows) (hj : j < t.cols) :
    t.get? i j = .ok (t.get i j) := by
  have hend := h.rowEnd hi
  have hplace : t.address i j = i * t.stride + j := h.wrap_eq (by omega)
  have hin : i * t.stride + j < t.data.size := by omega
  simp [get?, get, hplace, hin]

theorem Intact.row?_eq (h : t.Intact) (hi : i < t.rows) : t.row? i = .ok (t.row i) := by
  have hend := h.rowEnd hi
  have hstart : t.rowStart i = i * t.stride := h.wrap_eq (by omega)
  have hstop : wrap (i * t.stride + t.cols) = i * t.stride + t.cols := h.wrap_eq hend
  rw [row?, slice?, hstart, hstop, if_pos ⟨Nat.le_add_right _ _, hend⟩]
  rfl

theorem Intact.set?_tabulate (h : t.Intact) (f : Nat → Nat → α) (hi : i < t.rows) (hj : j < t.cols) (x : α) :
    (t.tabulate f).set? i j x = .ok (t.tabulate fun r q => if r = i ∧ q = j then x else f r q) := by
  have hend := h.rowEnd hi
  have hplace : wrap (i * t.stride + j) = i * t.stride + j := h.wrap_eq (by omega)
  have haddress : (t.tabulate f).address i j = i * t.stride + j := hplace
  have hin : i * t.stride + j < (t.tabulate f).data.size := by
    rw [size_tabulate]
    omega
  rw [set?, haddress, if_pos hin]
  refine congrArg Except.ok (eq_tabulate rfl rfl (by simp [size_tabulate]) fun p hp => ?_)
  simp only [Array.getElem?_setIfInBounds, place_eq_iff (Nat.lt_of_lt_of_le hj h.cols), if_pos hin,
    getElem?_tabulate f hp]
  split <;> rfl

theorem row_tabulate (f : Nat → Nat → α) (h : t.Intact) (hi : i < t.rows) :
    (t.tabulate f).row i = (Array.range t.cols).map (f i) := by
  have hcolumns := h.cols
  have hend := h.rowEnd hi
  have hstride : (t.tabulate f).stride = t.stride := rfl
  have hcols : (t.tabulate f).cols = t.cols := rfl
  refine Array.ext_getElem? fun q => ?_
  simp only [row, hstride, hcols]
  by_cases hq : q < t.cols
  · obtain ⟨hrow, hplace⟩ := (place_eq_iff (i := i) (Nat.lt_of_lt_of_le hq h.cols)).mp rfl
    have hp : i * t.stride + q < t.data.size := by omega
    rw [Array.getElem?_extract_of_lt (by rw [size_tabulate]; omega), ← Array.getElem?_eq_getElem,
      getElem?_tabulate f hp, hrow, hplace]
    simp [hq]
  · rw [Array.getElem?_eq_none (by simp [size_tabulate]; omega), Array.getElem?_eq_none (by simp; omega)]

theorem tabulate_get [OfNat α 0] (t : Tensor α) : t.tabulate t.get = t := by
  refine (eq_tabulate rfl rfl rfl fun p hp => ?_).symm
  have hplace : p / t.stride * t.stride + p % t.stride = p := Nat.div_add_mod' p t.stride
  simp [get, hplace, hp]

theorem zero_eq_tabulate [OfNat α 0] (t : Tensor α) : t.zero = t.tabulate fun _ _ => 0 :=
  eq_tabulate rfl rfl (by simp [zero]) fun p hp => by simp [zero, hp]

/-- A row put through a function that is known on it. -/
theorem Intact.modifyRow?_tabulate (h : t.Intact) (f : Nat → Nat → α) (hi : i < t.rows)
    {change : Array α → Array α} {g : Nat → α}
    (hg : change ((Array.range t.cols).map (f i)) = (Array.range t.cols).map g) :
    (t.tabulate f).modifyRow? i change =
      .ok (t.tabulate fun r q => if r = i ∧ q < t.cols then g q else f r q) := by
  have hend := h.rowEnd hi
  have hplace : wrap (i * t.stride) = i * t.stride := h.wrap_eq (by omega)
  have hstart : (t.tabulate f).rowStart i = i * t.stride := hplace
  have hrow : (t.tabulate f).row? i = .ok ((Array.range t.cols).map (f i)) := by
    rw [(h.tabulate f).row?_eq hi, row_tabulate f h hi]
  have hlen : ((Array.range t.cols).map (f i)).size = t.cols := by simp
  rw [modifyRow?, hrow, hstart, ← setRow_tabulate t f i h.cols g]
  simp only [bind, Except.bind, hg, hlen]
  rfl

/-! ### Entries without a place -/

/-- The matrices have one shape, and buffers of one length. -/
structure Alike (t u : Tensor α) : Prop where
  rows : t.rows = u.rows
  cols : t.cols = u.cols
  size : t.data.size = u.data.size

theorem Alike.rowStart (h : t.Alike u) (r : Nat) : t.rowStart r = u.rowStart r := by
  simp only [Tensor.rowStart, stride, h.cols]

theorem LaidOut.alike (h : u.LaidOut) (ht : t.Alike u) : t.LaidOut := by
  have hstride : t.stride = u.stride := congrArg paddedStride ht.cols
  refine ⟨ht.cols ▸ h.cols, ?_, ?_⟩
  · rw [ht.size, ht.rows, hstride, h.size]
  · rw [ht.size, ht.rows]
    exact h.room

theorem alike_setRow (t : Tensor α) (r : Nat) (xs : Array α) : (t.setRow r xs).Alike t :=
  ⟨rfl, rfl, size_writeFrom _ _ _⟩

theorem LaidOut.foldl_setRow (h : t.LaidOut) (row : Tensor α → Nat → Array α) (rs : List Nat) :
    (rs.foldl (fun t r => t.setRow r (row t r)) t).LaidOut :=
  List.foldlRecOn (motive := LaidOut) _ _ h fun u hu r _ => hu.alike (u.alike_setRow r _)

theorem LaidOut.fill (h : t.LaidOut) {x : α} (hu : t.fill x = .ok u) : u.LaidOut := by
  unfold Tensor.fill at hu
  split at hu
  · cases hu
    exact h
  · split at hu
    · cases hu
      exact h.foldl_setRow (fun t _ => Array.replicate t.cols x) _
    · cases hu

theorem alike_zero [OfNat α 0] (t : Tensor α) : t.zero.Alike t := ⟨rfl, rfl, Array.size_replicate⟩

theorem failsOr_get? (t : Tensor α) (r q : Nat) : FailsOr .outOfBounds (fun _ => True) (t.get? r q) := by
  unfold get?
  split
  · exact .ok trivial
  · exact .error

theorem failsOr_row? (t : Tensor α) (r : Nat) : FailsOr .outOfBounds (fun _ => True) (t.row? r) := by
  unfold row? slice?
  split
  · exact .ok trivial
  · exact .error

theorem Alike.failsOr_set? (h : t.Alike u) (r q : Nat) (x : α) :
    FailsOr .outOfBounds (·.Alike u) (t.set? r q x) := by
  unfold set?
  split
  · exact .ok ⟨h.rows, h.cols, Array.size_setIfInBounds.trans h.size⟩
  · exact .error

theorem Alike.failsOr_modifyRow? (h : t.Alike u) (r : Nat) (change : Array α → Array α) :
    FailsOr .outOfBounds (·.Alike u) (t.modifyRow? r change) :=
  (t.failsOr_row? r).bind fun _ _ => .ok ⟨h.rows, h.cols, (size_writeFrom _ _ _).trans h.size⟩

theorem get?_missing {r : Nat} (h : t.data.size ≤ t.rowStart r) : t.get? r 0 = .error .outOfBounds := by
  have haddress : t.address r 0 = t.rowStart r := rfl
  rw [get?, haddress, Array.getElem?_eq_none h]

theorem set?_missing {r : Nat} (h : t.data.size ≤ t.rowStart r) (x : α) : t.set? r 0 x = .error .outOfBounds := by
  have haddress : t.address r 0 = t.rowStart r := rfl
  rw [set?, haddress, if_neg (by omega)]

theorem row?_missing {r : Nat} (hcols : t.cols < UInt64.size) (hne : t.cols ≠ 0)
    (h : t.data.size ≤ t.rowStart r) : t.row? r = .error .outOfBounds := by
  rw [row?, slice?, if_neg]
  have hword : t.rowStart r < UInt64.size := Nat.mod_lt _ (by decide)
  simp only [wrap, UInt64.size] at hcols hword ⊢
  omega

end Tensor

/-! ### Products -/

namespace Kernel

open Tensor

variable {α : Type} {a b c : Tensor α} {i j : Nat}

/-- Every entry that a product looks at has its place. An empty loop looks at none. -/
def Covers (k : Backend) (c a b : Tensor α) : Prop :=
  match k with
  | .scalar => a.rows = 0 ∨ b.cols = 0 ∨ c.Fits ∧ (a.cols = 0 ∨ a.Fits ∧ b.Fits)
  | .lanes => a.rows = 0 ∨ a.cols = 0 ∨ a.Fits ∧ b.Fits ∧ c.Fits

/-- One way loops over the columns of the product first, the other over the inner index. -/
theorem covers_ne_iff (h : Conform c a b) : ¬ (Covers .lanes c a b ↔ Covers .scalar c a b) ↔ a.rows ≠ 0 ∧
    (a.cols ≠ 0 ∧ b.cols = 0 ∧ ¬ a.Fits ∨ a.cols = 0 ∧ b.cols ≠ 0 ∧ ¬ c.Fits) := by
  have hfb (hcols : b.cols = 0) : b.Fits := fits_of_cols hcols
  have hfc (hcols : b.cols = 0) : c.Fits := fits_of_cols (h.cols ▸ hcols)
  simp only [Covers]
  grind

variable [OfNat α 0] [Add α] [Mul α]

/-- The sum of the first terms of an entry. -/
def partialSum (a b : Tensor α) (i j n : Nat) : α :=
  (List.range n).foldl (fun total k => total + a.get i k * b.get k j) 0

/-- The entry of a product, where every term has its place. -/
def entry (a b : Tensor α) (i j : Nat) : α := partialSum a b i j a.cols

theorem partialSum_succ (a b : Tensor α) (i j n : Nat) :
    partialSum a b i j (n + 1) = partialSum a b i j n + a.get i n * b.get n j := by
  simp only [partialSum, List.range_succ, List.foldl_append]
  rfl

/-- What is in the buffer once some rows are done. -/
def filledTo (c a b : Tensor α) (m : Nat) : Tensor α :=
  c.tabulate fun r q => if r < m ∧ q < b.cols then entry a b r q else 0

/-- What a product leaves in the buffer. -/
def filled (c a b : Tensor α) : Tensor α := filledTo c a b a.rows

/-- What is in the buffer while a row is worked on, whose first places hold what is given. -/
def filling (c a b : Tensor α) (i n : Nat) (row : Nat → α) : Tensor α :=
  c.tabulate fun r q => if r = i ∧ q < n then row q else if r < i ∧ q < b.cols then entry a b r q else 0

theorem zero_eq_filledTo (c a b : Tensor α) : c.zero = filledTo c a b 0 := by
  simp [filledTo, zero_eq_tabulate]

theorem filling_none (c a b : Tensor α) (i : Nat) (row : Nat → α) : filling c a b i 0 row = filledTo c a b i := by
  simp [filling, filledTo]

theorem filling_zero (c a b : Tensor α) (i n : Nat) : filling c a b i n (fun _ => 0) = filledTo c a b i := by
  refine congrArg c.tabulate (funext fun r => funext fun q => ?_)
  grind

theorem filling_entry (c a b : Tensor α) (i : Nat) :
    filling c a b i b.cols (entry a b i) = filledTo c a b (i + 1) := by
  refine congrArg c.tabulate (funext fun r => funext fun q => ?_)
  grind

theorem filled_empty (h : a.rows = 0 ∨ a.cols = 0 ∨ b.cols = 0) : filled c a b = c.zero := by
  rw [filled, filledTo, zero_eq_tabulate]
  refine congrArg c.tabulate (funext fun r => funext fun q => ?_)
  rcases h with h | h | h <;> simp [h, entry, partialSum]

theorem filled_eq_ofFn (h : Conform c a b) (hc : c.Intact) :
    filled c a b = Tensor.ofFn a.rows b.cols (entry a b) := by
  have hstride : paddedStride b.cols = c.stride := congrArg paddedStride h.cols
  have hsize : a.rows * c.stride = c.data.size := by rw [h.rows, hc.whole]
  rw [filled, filledTo, eq_comm]
  refine eq_tabulate h.rows h.cols (by simp [ofFn, hstride, hsize]) fun p hp => ?_
  have hrow : p / c.stride < a.rows := by
    rw [h.rows]
    exact Nat.div_lt_of_lt_mul (by rwa [Nat.mul_comm, ← hc.whole])
  simp [ofFn, hstride, hsize, hp, hrow]

theorem entryAt?_eq (h : ∀ k < a.cols, a.get? i k = .ok (a.get i k) ∧ b.get? k j = .ok (b.get k j)) :
    entryAt? a b i j = .ok (entry a b i j) := by
  refine steps_ok (partialSum a b i j) fun k hk => ?_
  obtain ⟨ha, hb⟩ := h k hk
  rw [ha, hb, partialSum_succ]
  rfl

theorem plainProduct_ok (h : Conform c a b) (hc : c.Intact)
    (hentry : ∀ i < a.rows, ∀ j < b.cols, entryAt? a b i j = .ok (entry a b i j)) :
    plainProduct c a b = .ok (filled c a b) := by
  rw [plainProduct, zero_eq_filledTo c a b]
  refine steps_ok (filledTo c a b) fun i hi => ?_
  rw [← filling_none c a b i (entry a b i), ← filling_entry]
  refine steps_ok (fun n => filling c a b i n (entry a b i)) fun j hj => ?_
  rw [hentry i hi j hj]
  refine (hc.set?_tabulate _ (h.rows ▸ hi) (h.cols ▸ hj) _).trans (congrArg _ ?_)
  refine congrArg c.tabulate (funext fun r => funext fun q => ?_)
  grind

/-- Adding the multiples of rows one by one adds the terms of every entry in their order. -/
theorem laneProduct_ok (h : Conform c a b) (ha : a.Intact) (hb : b.Intact) (hc : c.Intact) :
    laneProduct c a b = .ok (filled c a b) := by
  rw [laneProduct, zero_eq_filledTo c a b]
  refine steps_ok (filledTo c a b) fun i hi => ?_
  rw [← filling_zero c a b i b.cols, ← filling_entry]
  refine steps_ok (fun n => filling c a b i b.cols fun q => partialSum a b i q n) fun k hk => ?_
  have hrow : b.row k = (Array.range c.cols).map (b.get k) := by
    rw [← h.cols, ← row_tabulate b.get hb (h.inner ▸ hk), tabulate_get]
  rw [ha.get?_eq hi hk, hb.row?_eq (h.inner ▸ hk), hrow]
  -- The row that is read back is the one built up so far.
  refine (hc.modifyRow?_tabulate _ (h.rows ▸ hi) (axpy_lanes_map _ _ _ _)).trans (congrArg _ ?_)
  refine congrArg c.tabulate (funext fun r => funext fun q => ?_)
  have hcols := h.cols
  grind [partialSum_succ]

/-- Without a row or a column of the product there is nothing to do. -/
theorem plainProduct_empty (h : a.rows = 0 ∨ b.cols = 0) : plainProduct c a b = .ok c.zero := by
  refine steps_ok (fun _ => c.zero) fun i hi => ?_
  rw [h.resolve_left (by omega)]
  rfl

/-- Without a row of the product or a value of the inner index there is nothing to do. -/
theorem laneProduct_empty (h : a.rows = 0 ∨ a.cols = 0) : laneProduct c a b = .ok c.zero := by
  refine steps_ok (fun _ => c.zero) fun i hi => ?_
  rw [h.resolve_left (by omega)]
  rfl

/-! ### Products that miss an entry -/

omit [OfNat α 0] in
theorem failsOr_term (a b : Tensor α) (i j k : Nat) (total : α) : FailsOr .outOfBounds (fun _ => True)
    (do return total + (← a.get? i k) * (← b.get? k j)) :=
  (a.failsOr_get? i k).bind fun _ _ => (b.failsOr_get? k j).bind fun _ _ => .ok trivial

theorem failsOr_entryAt? (a b : Tensor α) (i j : Nat) : FailsOr .outOfBounds (fun _ => True) (entryAt? a b i j) :=
  failsOr_steps trivial (fun k total _ => failsOr_term a b i j k total) a.cols

theorem entryAt?_error {k : Nat} (hk : k < a.cols)
    (h : a.get? i k = .error .outOfBounds ∨ b.get? k j = .error .outOfBounds) :
    entryAt? a b i j = .error .outOfBounds := by
  refine steps_error trivial (fun k total _ => failsOr_term a b i j k total) hk fun total _ => ?_
  rcases h with h | h
  · rw [h]
    rfl
  · refine (a.failsOr_get? i k).bind_error fun x _ => ?_
    rw [h]
    rfl

theorem failsOr_plainStep (a b : Tensor α) (i j : Nat) (u : Tensor α) (hu : u.Alike c) :
    FailsOr .outOfBounds (·.Alike c) (do u.set? i j (← entryAt? a b i j)) :=
  (failsOr_entryAt? a b i j).bind fun x _ => hu.failsOr_set? i j x

omit [OfNat α 0] in
theorem failsOr_laneStep (a b : Tensor α) (i k : Nat) (u : Tensor α) (hu : u.Alike c) :
    FailsOr .outOfBounds (·.Alike c) (do
      let s ← a.get? i k
      let xs ← b.row? k
      u.modifyRow? i (axpy .lanes s xs)) :=
  (a.failsOr_get? i k).bind fun _ _ => (b.failsOr_row? k).bind fun _ _ => hu.failsOr_modifyRow? i _

/-- A product keeps the shape and the length of the buffer. -/
theorem failsOr_product (k : Backend) (c a b : Tensor α) : FailsOr .outOfBounds (·.Alike c) (product k c a b) := by
  cases k with
  | scalar => exact failsOr_nested (P := fun u => Alike u c) c.alike_zero (failsOr_plainStep a b) a.rows b.cols
  | lanes => exact failsOr_nested (P := fun u => Alike u c) c.alike_zero (failsOr_laneStep a b) a.rows a.cols

theorem plainProduct_error_of_entryAt? (hi : i < a.rows) (hj : j < b.cols)
    (h : entryAt? a b i j = .error .outOfBounds) : plainProduct c a b = .error .outOfBounds := by
  refine nested_error c.alike_zero (failsOr_plainStep a b) hi hj fun u _ => ?_
  rw [h]
  rfl

theorem plainProduct_error (h : Conform c a b) (ha : a.LaidOut) (hb : b.LaidOut) (hc : c.LaidOut)
    (hrows : a.rows ≠ 0) (hcols : b.cols ≠ 0) (hmiss : ¬ (c.Fits ∧ (a.cols = 0 ∨ a.Fits ∧ b.Fits))) :
    plainProduct c a b = .error .outOfBounds := by
  by_cases hfc : c.Fits
  · have hinner : a.cols ≠ 0 := fun hzero => hmiss ⟨hfc, .inl hzero⟩
    by_cases hfa : a.Fits
    · have hfb : ¬ b.Fits := fun hfb => hmiss ⟨hfc, .inr ⟨hfa, hfb⟩⟩
      obtain ⟨k, hk, hstart⟩ := hb.exists_missing hfb (h.inner ▸ hinner)
      exact plainProduct_error_of_entryAt? (Nat.pos_of_ne_zero hrows) (Nat.pos_of_ne_zero hcols)
        (entryAt?_error (h.inner ▸ hk) (.inr (get?_missing hstart)))
    · obtain ⟨i, hi, hstart⟩ := ha.exists_missing hfa hrows
      exact plainProduct_error_of_entryAt? hi (Nat.pos_of_ne_zero hcols)
        (entryAt?_error (Nat.pos_of_ne_zero hinner) (.inl (get?_missing hstart)))
  · obtain ⟨i, hi, hstart⟩ := hc.exists_missing hfc (h.rows ▸ hrows)
    refine nested_error c.alike_zero (failsOr_plainStep a b) (h.rows ▸ hi) (Nat.pos_of_ne_zero hcols) fun u hu => ?_
    rw [← hu.size, ← hu.rowStart] at hstart
    exact (failsOr_entryAt? a b i 0).bind_error fun x _ => set?_missing hstart x

theorem laneProduct_error (h : Conform c a b) (ha : a.LaidOut) (hb : b.LaidOut) (hc : c.LaidOut)
    (hrows : a.rows ≠ 0) (hinner : a.cols ≠ 0) (hmiss : ¬ (a.Fits ∧ b.Fits ∧ c.Fits)) :
    laneProduct c a b = .error .outOfBounds := by
  by_cases hfa : a.Fits
  · by_cases hfb : b.Fits
    · have hfc : ¬ c.Fits := fun hfc => hmiss ⟨hfa, hfb, hfc⟩
      obtain ⟨i, hi, hstart⟩ := hc.exists_missing hfc (h.rows ▸ hrows)
      refine nested_error c.alike_zero (failsOr_laneStep a b) (h.rows ▸ hi) (Nat.pos_of_ne_zero hinner) fun u hu => ?_
      rw [← hu.size, ← hu.rowStart] at hstart
      have hrow := row?_missing (hu.cols ▸ hc.cols) (hu.cols ▸ fun hzero => hfc (fits_of_cols hzero)) hstart
      refine (a.failsOr_get? i 0).bind_error fun s _ => (b.failsOr_row? 0).bind_error fun xs _ => ?_
      rw [modifyRow?, hrow]
      rfl
    · obtain ⟨k, hk, hstart⟩ := hb.exists_missing hfb (h.inner ▸ hinner)
      have hrow := row?_missing hb.cols (fun hzero => hfb (fits_of_cols hzero)) hstart
      refine nested_error c.alike_zero (failsOr_laneStep a b) (Nat.pos_of_ne_zero hrows) (h.inner ▸ hk) fun u _ => ?_
      refine (a.failsOr_get? 0 k).bind_error fun s _ => ?_
      rw [hrow]
      rfl
  · obtain ⟨i, hi, hstart⟩ := ha.exists_missing hfa hrows
    refine nested_error c.alike_zero (failsOr_laneStep a b) hi (Nat.pos_of_ne_zero hinner) fun u _ => ?_
    rw [get?_missing hstart]
    rfl

/-- **Both ways of multiplying matrices leave the same**, where they find what they look at. -/
theorem product_covered (h : Conform c a b) (ha : a.LaidOut) (hb : b.LaidOut) (hc : c.LaidOut) {k : Backend}
    (hk : Covers k c a b) : product k c a b = .ok (filled c a b) := by
  cases k with
  | scalar =>
    rcases hk with hrows | hcols | ⟨hfc, hfactors⟩
    · rw [filled_empty (.inl hrows)]
      exact plainProduct_empty (.inl hrows)
    · rw [filled_empty (.inr (.inr hcols))]
      exact plainProduct_empty (.inr hcols)
    · refine plainProduct_ok h (hc.intact hfc) fun i hi j hj => entryAt?_eq fun k hk => ?_
      obtain ⟨hfa, hfb⟩ := hfactors.resolve_left (by omega)
      exact ⟨(ha.intact hfa).get?_eq hi hk, (hb.intact hfb).get?_eq (h.inner ▸ hk) hj⟩
  | lanes =>
    rcases hk with hrows | hinner | ⟨hfa, hfb, hfc⟩
    · rw [filled_empty (.inl hrows)]
      exact laneProduct_empty (.inl hrows)
    · rw [filled_empty (.inr (.inl hinner))]
      exact laneProduct_empty (.inr hinner)
    · exact laneProduct_ok h (ha.intact hfa) (hb.intact hfb) (hc.intact hfc)

theorem product_uncovered (h : Conform c a b) (ha : a.LaidOut) (hb : b.LaidOut) (hc : c.LaidOut) {k : Backend}
    (hk : ¬ Covers k c a b) : product k c a b = .error .outOfBounds := by
  cases k with
  | scalar =>
    obtain ⟨hrows, hcols, hmiss⟩ : a.rows ≠ 0 ∧ b.cols ≠ 0 ∧ _ := by simpa only [Covers, not_or] using hk
    exact plainProduct_error h ha hb hc hrows hcols hmiss
  | lanes =>
    obtain ⟨hrows, hinner, hmiss⟩ : a.rows ≠ 0 ∧ a.cols ≠ 0 ∧ _ := by simpa only [Covers, not_or] using hk
    exact laneProduct_error h ha hb hc hrows hinner hmiss

end Kernel

/-! ### The matrices there are -/

namespace Tensor

variable {α : Type} [OfNat α 0] {t u : Tensor α}

theorem laidOut_allocate {rows cols : Nat} (hcols : cols < UInt64.size) (h : Tensor.allocate rows cols = .ok t) :
    t.LaidOut := by
  obtain ⟨_, hroom, h⟩ := ok_of_bind h
  cases h
  have hsize : (zeros rows cols : Tensor α).data.size = wrap (rows * paddedStride cols) := Array.size_replicate
  have hbytes := lt_of_requireRoom hroom
  refine ⟨hcols, hsize, .inr ?_⟩
  rw [hsize]
  unfold entryBytes at hbytes
  omega

theorem laidOut_ofRows {rows cols : Nat} {values : Array α} (hcols : cols < UInt64.size)
    (h : Tensor.ofRows rows cols values = .ok t) : t.LaidOut := by
  obtain ⟨_, -, h⟩ := ok_of_bind h
  obtain ⟨blank, hblank, h⟩ := ok_of_bind h
  have hrows := (laidOut_allocate hcols hblank).foldl_setRow
    (fun _ r => values.extract (r * cols) ((r + 1) * cols)) (List.range (values.size / cols))
  dsimp only at h
  split at h
  · obtain ⟨_, -, h⟩ := ok_of_bind h
    cases h
    exact hrows
  · cases h
    exact hrows

theorem laidOut_ofVector (values : Array α) (h : values.size < UInt64.size) : (Tensor.ofVector values).LaidOut := by
  have hzeros : (zeros 1 values.size : Tensor α).LaidOut := ⟨h, Array.size_replicate, .inl (Nat.le_refl 1)⟩
  exact hzeros.alike (alike_setRow _ 0 values)

variable [Add α] [Mul α]

/-- The matrices there are: made of zeros or from values, written over, or multiplied. -/
inductive Made : Tensor α → Prop
  | allocate {rows cols : Nat} {t : Tensor α} : cols < UInt64.size → Tensor.allocate rows cols = .ok t → Made t
  | ofRows {rows cols : Nat} {values : Array α} {t : Tensor α} : cols < UInt64.size →
      Tensor.ofRows rows cols values = .ok t → Made t
  | ofVector (values : Array α) : values.size < UInt64.size → Made (Tensor.ofVector values)
  | set {t u : Tensor α} {r c : Nat} {x : α} : Made t → t.set? r c x = .ok u → Made u
  | setRow {t : Tensor α} (r : Nat) (xs : Array α) : Made t → Made (t.setRow r xs)
  | setValues {t : Tensor α} (x : α) : Made t → Made (t.setValues x)
  | fill {t u : Tensor α} {x : α} : Made t → t.fill x = .ok u → Made u
  | zero {t : Tensor α} : Made t → Made t.zero
  | matmul {c : Tensor α} (k : Backend) (a b : Tensor α) : Made c → Made (Kernel.matmul k c a b).2

/-- Every matrix has a buffer as long as its shape says. -/
theorem Made.laidOut (h : t.Made) : t.LaidOut := by
  induction h with
  | allocate hcols h => exact laidOut_allocate hcols h
  | ofRows hcols h => exact laidOut_ofRows hcols h
  | ofVector values h => exact laidOut_ofVector values h
  | @set t u r c x _ h ih =>
    have halike : t.Alike t := ⟨rfl, rfl, rfl⟩
    exact ih.alike ((halike.failsOr_set? r c x).of_ok h)
  | setRow r xs _ ih => exact ih.alike (alike_setRow _ r xs)
  | setValues x _ ih => exact ih.alike ⟨rfl, rfl, size_writeFrom _ _ _⟩
  | fill _ h ih => exact ih.fill h
  | @zero t _ ih => exact ih.alike t.alike_zero
  | @matmul c k a b _ ih =>
    unfold Kernel.matmul
    split
    · exact ih
    · next u hu =>
      obtain ⟨_, -, hu⟩ := ok_of_bind hu
      exact ih.alike ((Kernel.failsOr_product k c a b).of_ok hu)

end Tensor

/-! ### Both ways -/

namespace Kernel

open Tensor

variable {α : Type} [OfNat α 0] [Add α] [Mul α] {a b c : Tensor α}

/-- A product of shapes that do not fit together is refused, and nothing has changed. -/
theorem matmul_mismatch (h : ¬ Conform c a b) :
    ∃ operation m n, ∀ k, matmul k c a b = (.error (.dimension operation m n), c) := by
  rcases expectShapes_cases c a b with ⟨h', -⟩ | ⟨-, operation, m, n, herr⟩
  · exact absurd h' h
  · exact ⟨operation, m, n, fun k => by rw [matmul, herr]; rfl⟩

theorem matmul_covered (h : Conform c a b) (ha : a.LaidOut) (hb : b.LaidOut) (hc : c.LaidOut) {k : Backend}
    (hk : Covers k c a b) : matmul k c a b = (.ok (), filled c a b) := by
  simp only [matmul, expectShapes_ok h, bind, Except.bind, product_covered h ha hb hc hk]

theorem matmul_uncovered (h : Conform c a b) (ha : a.LaidOut) (hb : b.LaidOut) (hc : c.LaidOut) {k : Backend}
    (hk : ¬ Covers k c a b) : matmul k c a b = (.error .outOfBounds, c) := by
  simp only [matmul, expectShapes_ok h, bind, Except.bind, product_uncovered h ha hb hc hk]

/-- Where everything fits into 64 bits, a product is found. -/
theorem matmul_fits (h : Conform c a b) (ha : a.LaidOut) (hb : b.LaidOut) (hc : c.LaidOut) (hfa : a.Fits)
    (hfb : b.Fits) (hfc : c.Fits) (k : Backend) :
    matmul k c a b = (.ok (), Tensor.ofFn a.rows b.cols (entry a b)) := by
  have hk : Covers k c a b := by cases k <;> simp [Covers, hfa, hfb, hfc]
  rw [matmul_covered h ha hb hc hk, filled_eq_ofFn h (hc.intact hfc)]

theorem matmul_ne_iff (h : Conform c a b) (ha : a.LaidOut) (hb : b.LaidOut) (hc : c.LaidOut) :
    matmul .lanes c a b ≠ matmul .scalar c a b ↔ ¬ (Covers .lanes c a b ↔ Covers .scalar c a b) := by
  by_cases hl : Covers .lanes c a b <;> by_cases hs : Covers .scalar c a b
  · simp [matmul_covered h ha hb hc hl, matmul_covered h ha hb hc hs, hl, hs]
  · simp [matmul_covered h ha hb hc hl, matmul_uncovered h ha hb hc hs, hl, hs]
  · simp [matmul_uncovered h ha hb hc hl, matmul_covered h ha hb hc hs, hl, hs]
  · simp [matmul_uncovered h ha hb hc hl, matmul_uncovered h ha hb hc hs, hl, hs]

/-- **`matmul` does not depend on the backend for shapes that fit 64 bits.** `axpy` never does. For made tensors `a`,
`b` and `c`: unless they `Conform`, every backend gives the same error on dimensions and leaves `c` alone. If they do,
and all three `Fits`, every backend leaves the tensor of `entry a b`, with zeros in its padding. The two backends
differ exactly where shapes that conform do not fit: there is an inner dimension without columns and `a` is past 64
bits, or there are columns without an inner dimension and `c` is. -/
theorem matmul_backends_agree (ha : a.Made) (hb : b.Made) (hc : c.Made) :
    (∀ (s : α) (xs ys : Array α), axpy .lanes s xs ys = axpy .scalar s xs ys) ∧
    (¬ Conform c a b → ∃ operation m n, ∀ k, matmul k c a b = (.error (.dimension operation m n), c)) ∧
    (Conform c a b → a.Fits → b.Fits → c.Fits → ∀ k,
      matmul k c a b = (.ok (), Tensor.ofFn a.rows b.cols (entry a b))) ∧
    (matmul .lanes c a b ≠ matmul .scalar c a b ↔ Conform c a b ∧ a.rows ≠ 0 ∧
      (a.cols ≠ 0 ∧ b.cols = 0 ∧ ¬ a.Fits ∨ a.cols = 0 ∧ b.cols ≠ 0 ∧ ¬ c.Fits)) := by
  refine ⟨axpy_lanes, matmul_mismatch, fun h hfa hfb hfc => ?_, ?_⟩
  · exact matmul_fits h ha.laidOut hb.laidOut hc.laidOut hfa hfb hfc
  · by_cases h : Conform c a b
    · simp only [matmul_ne_iff h ha.laidOut hb.laidOut hc.laidOut, covers_ne_iff h, h, true_and]
    · obtain ⟨operation, m, n, herr⟩ := matmul_mismatch h
      simp [herr, h]

/-- The two ways agree on a column of infinities, and differ over two rows of `2 ^ 63` entries each, for which
there is no buffer. -/
theorem matmul_agrees_on_infinities_not_past_words :
    (∃ a b c : Tensor Float32, Tensor.ofRows 2 2 #[1, 0, -0, 1] = .ok a ∧
      Tensor.ofRows 2 1 #[1 / 0, -1 / 0] = .ok b ∧ Tensor.ofRows 2 1 #[0 / 0, 3] = .ok c ∧
      ∀ k, matmul k c a b = (.ok (), Tensor.ofFn 2 1 (entry a b))) ∧
    ∃ a b c : Tensor Float32, Tensor.ofRows 2 9223372036854775808 #[] = .ok a ∧
      Tensor.ofRows 9223372036854775808 0 #[] = .ok b ∧ Tensor.allocate 2 0 = .ok c ∧
      matmul .lanes c a b ≠ matmul .scalar c a b := by
  constructor
  · obtain ⟨a, ha, hfa⟩ : ∃ a : Tensor Float32, Tensor.ofRows 2 2 #[1, 0, -0, 1] = .ok a ∧
        a.rows = 2 ∧ a.cols = 2 ∧ a.Fits := ⟨_, rfl, rfl, rfl, ⟨by decide, by decide⟩⟩
    obtain ⟨b, hb, hfb⟩ : ∃ b : Tensor Float32, Tensor.ofRows 2 1 #[1 / 0, -1 / 0] = .ok b ∧
        b.rows = 2 ∧ b.cols = 1 ∧ b.Fits := ⟨_, rfl, rfl, rfl, ⟨by decide, by decide⟩⟩
    obtain ⟨c, hc, hfc⟩ : ∃ c : Tensor Float32, Tensor.ofRows 2 1 #[0 / 0, 3] = .ok c ∧
        c.rows = 2 ∧ c.cols = 1 ∧ c.Fits := ⟨_, rfl, rfl, rfl, ⟨by decide, by decide⟩⟩
    have hproduct := (matmul_backends_agree (.ofRows (by decide) ha) (.ofRows (by decide) hb)
      (.ofRows (by decide) hc)).2.2.1
      ⟨hfa.2.1.trans hfb.1.symm, hfa.1.trans hfc.1.symm, hfb.2.1.trans hfc.2.1.symm⟩ hfa.2.2 hfb.2.2 hfc.2.2
    rw [hfa.1, hfb.2.1] at hproduct
    exact ⟨a, b, c, ha, hb, hc, hproduct⟩
  · obtain ⟨a, ha, har, hac, hfa⟩ : ∃ a : Tensor Float32, Tensor.ofRows 2 9223372036854775808 #[] = .ok a ∧
        a.rows = 2 ∧ a.cols = 9223372036854775808 ∧ ¬ a.Fits :=
      ⟨_, rfl, rfl, rfl, fun h => absurd h.size (by decide)⟩
    obtain ⟨b, hb, hbr, hbc⟩ : ∃ b : Tensor Float32, Tensor.ofRows 9223372036854775808 0 #[] = .ok b ∧
        b.rows = 9223372036854775808 ∧ b.cols = 0 := ⟨_, rfl, rfl, rfl⟩
    obtain ⟨c, hc, hcr, hcc⟩ : ∃ c : Tensor Float32, Tensor.allocate 2 0 = .ok c ∧ c.rows = 2 ∧ c.cols = 0 :=
      ⟨_, rfl, rfl, rfl⟩
    refine ⟨a, b, c, ha, hb, hc, ?_⟩
    exact (matmul_backends_agree (.ofRows (by decide) ha) (.ofRows (by decide) hb)
      (.allocate (by decide) hc)).2.2.2.mpr
      ⟨⟨hac.trans hbr.symm, har.trans hcr.symm, hbc.trans hcc.symm⟩, by omega, .inl ⟨by omega, hbc, hfa⟩⟩

end Kernel

end NpcMind
