import Mathlib.Order.Bounds.Defs
import NpcMind.Proofs.Matrices

/-!
# Rows and their filling

A matrix that was made of zeros or of values, and then written through its rows, its entries or as a whole, keeps the
layout of its buffer: the rows one after the other, each as long as the least multiple of eight that holds its
entries, and zeros behind the entries of each row. So rows lie apart, and a write goes where it says and nowhere
else. What a write leaves is one function of row and place, `Write.result`, and all the rest is read off it.

The length of a row is reckoned in 64 bits. The last seven widths have none that a word can hold: it comes out as
zero, and a matrix of that width has the right layout only if it has no rows.
-/

namespace NpcMind

open Outcome

/-- The length of a row that is filled up to a multiple of eight, whatever a word can hold. -/
def fullStride (cols : Nat) : Nat := (cols + 7) / laneCount * laneCount

theorem isLeast_fullStride (cols : Nat) : IsLeast {n | 8 ∣ n ∧ cols ≤ n} (fullStride cols) := by
  unfold fullStride laneCount
  constructor
  · exact ⟨Nat.dvd_mul_left 8 _, by omega⟩
  · rintro n ⟨⟨k, rfl⟩, hle⟩
    omega

theorem paddedStride_eq_iff (cols : Nat) : paddedStride cols = fullStride cols ↔ cols ≤ UInt64.size - 8 := by
  unfold paddedStride fullStride wrap laneCount
  simp only [UInt64.size]
  omega

theorem le_fullStride (cols : Nat) : cols ≤ fullStride cols := (isLeast_fullStride cols).1.2

theorem paddedStride_of_lt {cols : Nat} (h : fullStride cols < UInt64.size) : paddedStride cols = fullStride cols :=
  Nat.mod_eq_of_lt h

namespace Tensor

variable {α : Type} {t u : Tensor α} {f g : Nat → Nat → α} {r c n p : Nat}

theorem Fits.stride_eq (h : t.Fits) : t.stride = fullStride t.cols := by
  have hcols := h.cols
  unfold stride paddedStride wrap at hcols ⊢
  unfold fullStride
  simp only [laneCount, UInt64.size] at hcols ⊢
  omega

/-! ### Rows of a whole buffer -/

theorem getD_row [OfNat α 0] (t : Tensor α) (r : Nat) (hc : c < t.cols) : (t.row r).getD c 0 = t.get r c := by
  simp only [row, get, Array.getD_eq_getD_getElem?, Array.getElem?_extract]
  split
  · rfl
  · rw [Array.getElem?_eq_none (by omega)]

theorem size_row (h : t.isWhole = true) (hr : r < t.rows) : (t.row r).size = t.cols := by
  have hwhole : t.rows = 0 ∨ t.cols ≤ t.stride ∧ t.data.size = t.rows * t.stride := by simpa [isWhole] using h
  obtain ⟨hcols, hsize⟩ := hwhole.resolve_left (by omega)
  have hend := Nat.mul_le_mul_right t.stride hr
  rw [Nat.succ_mul, ← hsize] at hend
  rw [row, Array.size_extract]
  omega

theorem Intact.isWhole (h : t.Intact) : t.isWhole = true := by
  have hcols := h.cols
  have hwhole := h.whole
  simp [Tensor.isWhole, hcols, hwhole]

theorem Intact.fillingEnd (h : t.Intact) (hr : r < t.rows) : r * t.stride + t.stride ≤ t.data.size := by
  rw [h.whole, ← Nat.succ_mul]
  exact Nat.mul_le_mul_right t.stride hr

theorem Intact.place_lt (h : t.Intact) (hr : r < t.rows) (hc : c < t.stride) : r * t.stride + c < t.data.size :=
  Nat.lt_of_lt_of_le (Nat.add_lt_add_left hc _) (h.fillingEnd hr)

theorem Intact.get_tabulate [OfNat α 0] (h : t.Intact) (f : Nat → Nat → α) (hr : r < t.rows) (hc : c < t.stride) :
    (t.tabulate f).get r c = f r c := by
  obtain ⟨hrow, hplace⟩ := (place_eq_iff (i := r) hc).mp rfl
  have hin := getElem?_tabulate f (h.place_lt hr hc)
  rw [hrow, hplace] at hin
  show (t.tabulate f).data.getD (r * t.stride + c) 0 = f r c
  rw [Array.getD_eq_getD_getElem?, hin, Option.getD_some]

/-- Rows written one after the other. -/
theorem foldl_setRow_tabulate (h : t.cols ≤ t.stride) (f g : Nat → Nat → α) (row : Tensor α → Nat → Array α) (n : Nat)
    (hrow : ∀ r < n, ∀ f, row (t.tabulate f) r = (Array.range t.cols).map (g r)) :
    (List.range n).foldl (fun u r => u.setRow r (row u r)) (t.tabulate f) =
      t.tabulate fun r q => if r < n ∧ q < t.cols then g r q else f r q := by
  induction n with
  | zero => simp
  | succ n ih =>
    rw [List.range_succ, List.foldl_append, ih fun r hr => hrow r (by omega), List.foldl_cons, List.foldl_nil,
      hrow n (by omega), setRow_tabulate _ _ _ h]
    refine congrArg t.tabulate (funext fun r => funext fun q => ?_)
    grind

/-! ### Clean buffers -/

section Clean

variable [OfNat α 0]

/-- The buffer has every row of the shape, each filled up with zeros, and nothing else. -/
structure Clean (t : Tensor α) : Prop where
  size : t.data.size = t.rows * fullStride t.cols
  small : t.rows * fullStride t.cols < UInt64.size
  filling : ∀ r < t.rows, ∀ c, t.cols ≤ c → c < fullStride t.cols → t.data[r * fullStride t.cols + c]? = some 0

theorem Clean.stride_eq (h : t.Clean) (hrows : 0 < t.rows) : t.stride = fullStride t.cols :=
  paddedStride_of_lt (Nat.lt_of_le_of_lt (Nat.le_mul_of_pos_left _ hrows) h.small)

theorem Clean.intact (h : t.Clean) (hrows : 0 < t.rows) : t.Intact := by
  have hstride := h.stride_eq hrows
  refine ⟨⟨?_, ?_⟩, ?_⟩
  · rw [hstride]
    exact le_fullStride t.cols
  · rw [hstride]
    exact h.small
  · rw [hstride]
    exact h.size

theorem Clean.get_filling (h : t.Clean) (hr : r < t.rows) (hc : t.cols ≤ c) (hstride : c < t.stride) :
    t.get r c = 0 := by
  have heq := h.stride_eq (by omega)
  rw [get, heq, Array.getD_eq_getD_getElem?, h.filling r hr c hc (heq ▸ hstride), Option.getD_some]

theorem Intact.clean (h : t.Intact) (hf : ∀ r < t.rows, ∀ c, t.cols ≤ c → c < t.stride → t.get r c = 0) :
    t.Clean := by
  have hstride := h.stride_eq
  refine ⟨hstride ▸ h.whole, hstride ▸ h.size, fun r hr c hc hlt => ?_⟩
  rw [← hstride] at hlt ⊢
  have hget := hf r hr c hc hlt
  rw [get, Array.getD_eq_getD_getElem?, Array.getElem?_eq_getElem (h.place_lt hr hlt), Option.getD_some] at hget
  rw [Array.getElem?_eq_getElem (h.place_lt hr hlt), hget]

/-- A buffer without rows is clean if it is empty. -/
theorem clean_of_no_rows (hrows : t.rows = 0) (hsize : t.data.size = 0) : t.Clean := by
  refine ⟨?_, ?_, ?_⟩
  · rw [hrows, hsize, Nat.zero_mul]
  · rw [hrows, Nat.zero_mul]
    decide
  · intro r hr
    omega

end Clean

/-! ### Writes -/

/-- A write to a matrix: through a row or the first row, to one entry, to all entries, or to the whole buffer. What
is written through a row may depend on what is there. -/
inductive Write (α : Type) where
  | row (r : Nat) (change : Array α → Array α)
  | values (change : Array α → Array α)
  | set (r c : Nat) (x : α)
  | fill (x : α)
  | zero

namespace Write

/-- The row and the column that are written to are there. -/
def Within (rows cols : Nat) : Write α → Prop
  | .row r _ => r < rows
  | .set r c _ => r < rows ∧ c < cols
  | _ => True

variable [OfNat α 0]

/-- The matrix after a write. -/
def apply (t : Tensor α) : Write α → Outcome (Tensor α)
  | .row r change => t.modifyRow? r change
  | .values change => .ok (t.modifyValues change)
  | .set r c x => t.set? r c x
  | .fill x => t.fill x
  | .zero => .ok t.zero

/-- What there is at a row and a place after a write. A row that is written short keeps its other entries. -/
def result (t : Tensor α) : Write α → Nat → Nat → α
  | .row i change, r, q => if r = i ∧ q < t.cols then (change (t.row i)).getD q (t.get r q) else t.get r q
  | .values change, r, q => if r = 0 ∧ q < t.cols then (change (t.row 0)).getD q (t.get r q) else t.get r q
  | .set i j x, r, q => if r = i ∧ q = j then x else t.get r q
  | .fill x, r, q => if r < t.rows ∧ q < t.cols then x else t.get r q
  | .zero, _, _ => 0

/-- The write goes to a row and a column. -/
def Touches : Write α → Nat → Nat → Prop
  | .row i _, r, _ => r = i
  | .values _, r, _ => r = 0
  | .set i j _, r, c => r = i ∧ c = j
  | _, _, _ => True

theorem result_of_untouched (w : Write α) (t : Tensor α) (h : ¬ w.Touches r c) : w.result t r c = t.get r c := by
  cases w with
  | row i change => exact if_neg fun hin => h hin.1
  | values change => exact if_neg fun hin => h hin.1
  | set i j x => exact if_neg h
  | fill x => exact absurd trivial h
  | zero => exact absurd trivial h

end Write

/-- The matrix after writes in turn. -/
def writeAll [OfNat α 0] (t : Tensor α) (ws : List (Write α)) : Outcome (Tensor α) := ws.foldlM Write.apply t

section Clean

variable [OfNat α 0] {w : Write α}

theorem Intact.modifyRow?_eq (h : t.Intact) (hr : r < t.rows) (change : Array α → Array α) :
    t.modifyRow? r change = .ok (t.tabulate ((Write.row r change).result t)) := by
  have hend := h.rowEnd hr
  have hstart : t.rowStart r = r * t.stride := h.wrap_eq (by omega)
  have hsize : (t.row r).size = t.cols := size_row h.isWhole hr
  have hwrite := writeRow_tabulate t t.get r h.cols (List.length_take_le t.cols (change (t.row r)).toList)
  rw [tabulate_get] at hwrite
  rw [modifyRow?, h.row?_eq hr, hstart]
  simp only [bind, Except.bind, hsize]
  refine congrArg Except.ok (hwrite.trans (congrArg t.tabulate (funext fun i => funext fun q => ?_)))
  by_cases hq : i = r ∧ q < t.cols
  · simp [Write.result, hq]
  · simp only [Write.result, if_neg hq]

/-- The first row is written as any other. -/
theorem Intact.modifyValues_eq (h : t.Intact) (hrows : 0 < t.rows) (change : Array α → Array α) :
    t.modifyValues change = t.tabulate ((Write.values change).result t) := by
  have hend := h.rowEnd hrows
  have hvalues : t.values = t.row 0 := by
    rw [values, row, Nat.min_eq_left (by omega), Nat.zero_mul, Nat.zero_add]
  have hwrite := writeRow_tabulate t t.get 0 h.cols (List.length_take_le t.cols (change (t.row 0)).toList)
  rw [tabulate_get, Nat.zero_mul] at hwrite
  rw [modifyValues, hvalues, size_row h.isWhole hrows]
  refine hwrite.trans (congrArg t.tabulate (funext fun i => funext fun q => ?_))
  by_cases hq : i = 0 ∧ q < t.cols
  · simp [Write.result, hq]
  · simp only [Write.result, if_neg hq]

theorem Intact.set?_eq (h : t.Intact) (hr : r < t.rows) (hc : c < t.cols) (x : α) :
    t.set? r c x = .ok (t.tabulate ((Write.set r c x).result t)) := by
  have hset := h.set?_tabulate t.get hr hc x
  rwa [tabulate_get] at hset

theorem Intact.fill_eq (h : t.Intact) (x : α) : t.fill x = .ok (t.tabulate ((Write.fill x).result t)) := by
  unfold Tensor.fill
  split
  · next hcols =>
    have hresult : (Write.fill x).result t = t.get := by
      funext r q
      exact if_neg (by omega)
    rw [hresult, tabulate_get]
  · rw [if_pos h.isWhole]
    have hrow (f : Nat → Nat → α) : Array.replicate (t.tabulate f).cols x = (Array.range t.cols).map fun _ => x := by
      refine Array.ext ?_ fun q _ _ => ?_
      · simp only [Array.size_replicate, Array.size_map, Array.size_range]
        rfl
      · simp
    have hrows := foldl_setRow_tabulate h.cols t.get (fun _ _ => x) (fun u _ => Array.replicate u.cols x) t.rows
      fun _ _ f => hrow f
    rw [tabulate_get] at hrows
    exact congrArg Except.ok hrows

/-- **One write**, where there is a row: it leaves what it says, and nothing else changes. -/
theorem Intact.write (h : t.Intact) (hrows : 0 < t.rows) (hw : w.Within t.rows t.cols) :
    w.apply t = .ok (t.tabulate (w.result t)) := by
  cases w with
  | row r change => exact h.modifyRow?_eq hw change
  | values change => exact congrArg Except.ok (h.modifyValues_eq hrows change)
  | set r c x => exact h.set?_eq hw.1 hw.2 x
  | fill x => exact h.fill_eq x
  | zero => exact congrArg Except.ok t.zero_eq_tabulate

theorem Write.apply_of_no_rows (hrows : t.rows = 0) (hw : w.Within t.rows t.cols) :
    ∃ u, w.apply t = .ok u ∧ u.rows = t.rows ∧ u.cols = t.cols ∧ u.data.size = t.data.size := by
  cases w with
  | row r change =>
    have hr : r < t.rows := hw
    omega
  | set r c x =>
    have hr : r < t.rows := hw.1
    omega
  | values change => exact ⟨_, rfl, rfl, rfl, size_writeFrom _ _ _⟩
  | fill x =>
    refine ⟨t, ?_, rfl, rfl, rfl⟩
    simp [apply, Tensor.fill, Tensor.isWhole, hrows]
  | zero => exact ⟨_, rfl, rfl, rfl, Array.size_replicate⟩

theorem Write.result_filling (hw : w.Within t.rows t.cols) (hc : t.cols ≤ c) (h : t.get r c = 0) :
    w.result t r c = 0 := by
  cases w with
  | row i change => exact (if_neg (by omega)).trans h
  | values change => exact (if_neg (by omega)).trans h
  | set i j x =>
    have hj : j < t.cols := hw.2
    exact (if_neg (by omega)).trans h
  | fill x => exact (if_neg (by omega)).trans h
  | zero => rfl

/-- **One write** keeps a buffer clean, and leaves what it says. -/
theorem Clean.write (h : t.Clean) (hw : w.Within t.rows t.cols) :
    ∃ u, w.apply t = .ok u ∧ u.rows = t.rows ∧ u.cols = t.cols ∧ u.Clean ∧
      ∀ r < t.rows, ∀ c < t.cols, u.get? r c = .ok (w.result t r c) := by
  by_cases hrows : t.rows = 0
  · obtain ⟨u, hu, hurows, hucols, husize⟩ := w.apply_of_no_rows hrows hw
    have hsize : t.data.size = 0 := by rw [h.size, hrows, Nat.zero_mul]
    exact ⟨u, hu, hurows, hucols, clean_of_no_rows (hurows.trans hrows) (husize.trans hsize), fun r hr => by omega⟩
  · have hintact := h.intact (Nat.pos_of_ne_zero hrows)
    have hresult := hintact.tabulate (w.result t)
    refine ⟨_, hintact.write (Nat.pos_of_ne_zero hrows) hw, rfl, rfl, hresult.clean fun r hr c hc hstride => ?_,
      fun r hr c hc => ?_⟩
    · rw [hintact.get_tabulate _ hr hstride]
      exact Write.result_filling hw hc (h.get_filling hr hc hstride)
    · rw [hresult.get?_eq hr hc, hintact.get_tabulate _ hr (Nat.lt_of_lt_of_le hc hintact.cols)]

/-- **Any sequence of writes** keeps a buffer clean. -/
theorem Clean.writeAll (h : t.Clean) {ws : List (Write α)} (hws : ∀ w ∈ ws, w.Within t.rows t.cols) :
    ∃ u, t.writeAll ws = .ok u ∧ u.rows = t.rows ∧ u.cols = t.cols ∧ u.Clean := by
  induction ws generalizing t with
  | nil => exact ⟨t, rfl, rfl, rfl, h⟩
  | cons w rest ih =>
    obtain ⟨u, hu, hrows, hcols, hclean, -⟩ := h.write (hws w List.mem_cons_self)
    obtain ⟨v, hv, hvrows, hvcols, hvclean⟩ := ih hclean fun w' hw' => by
      rw [hrows, hcols]
      exact hws w' (List.mem_cons_of_mem w hw')
    refine ⟨v, ?_, hvrows.trans hrows, hvcols.trans hcols, hvclean⟩
    rw [Tensor.writeAll, List.foldlM_cons, hu]
    exact hv

theorem Clean.isWhole (h : t.Clean) : t.isWhole = true := by
  by_cases hrows : t.rows = 0
  · simp [Tensor.isWhole, hrows]
  · exact (h.intact (Nat.pos_of_ne_zero hrows)).isWhole

/-- A row with its filling is read as the row and zeros. -/
theorem Clean.paddedRow?_eq (h : t.Clean) (hr : r < t.rows) :
    t.paddedRow? r = .ok (t.row r ++ Array.replicate (fullStride t.cols - t.cols) 0) := by
  have hrows : 0 < t.rows := by omega
  have hintact := h.intact hrows
  have hstride := h.stride_eq hrows
  have hcols := hintact.cols
  have hsize := size_row hintact.isWhole hr
  have hend := hintact.fillingEnd hr
  have hstart : t.rowStart r = r * t.stride := hintact.wrap_eq (by omega)
  have hstop : wrap (r * t.stride + t.stride) = r * t.stride + t.stride := hintact.wrap_eq hend
  rw [paddedRow?, slice?, hstart, hstop, if_pos ⟨Nat.le_add_right _ _, hend⟩, ← hstride]
  refine congrArg Except.ok (Array.ext_getElem? fun c => ?_)
  by_cases hc : c < t.cols
  · rw [Array.getElem?_append_left (by omega), row, Array.getElem?_extract, Array.getElem?_extract,
      if_pos (by omega), if_pos (by omega)]
  · rw [Array.getElem?_append_right (by omega), hsize, Array.getElem?_replicate, Array.getElem?_extract]
    by_cases hlt : c < t.stride
    · rw [if_pos (by omega), if_pos (by omega), hstride]
      exact h.filling r hr c (by omega) (hstride ▸ hlt)
    · rw [if_neg (by omega), if_neg (by omega)]

theorem Clean.row_getElem? (h : t.Clean) (hr : r < t.rows) (hc : c < t.cols) : (t.row r)[c]? = some (t.get r c) := by
  have hsize := size_row h.isWhole hr
  rw [← getD_row t r hc, Array.getD_eq_getD_getElem?, Array.getElem?_eq_getElem (by omega), Option.getD_some]

/-! ### Making a matrix -/

/-- The matrices as they are made: of zeros, from values row by row, or from one row of values. A vector of zeros is
one row of them. -/
inductive Built : Nat → Nat → Tensor α → Prop
  | zeros {rows cols : Nat} {t : Tensor α} : allocate rows cols = .ok t → Built rows cols t
  | ofRows {rows cols : Nat} {values : Array α} {t : Tensor α} :
      Tensor.ofRows rows cols values = .ok t → Built rows cols t
  | ofVector (values : Array α) : Built 1 values.size (Tensor.ofVector values)

variable {rows cols : Nat} {values : Array α}

theorem mul_paddedStride (h : rows * fullStride cols < UInt64.size) :
    rows * paddedStride cols = rows * fullStride cols := by
  rcases Nat.eq_zero_or_pos rows with rfl | hrows
  · rw [Nat.zero_mul, Nat.zero_mul]
  · rw [paddedStride_of_lt (Nat.lt_of_le_of_lt (Nat.le_mul_of_pos_left _ hrows) h)]

theorem wrap_mul_paddedStride (h : rows * fullStride cols < UInt64.size) :
    wrap (rows * paddedStride cols) = rows * fullStride cols := by
  rw [mul_paddedStride h, wrap, Nat.mod_eq_of_lt h]

theorem wrap_mul_cols (h : rows * fullStride cols < UInt64.size) : wrap (rows * cols) = rows * cols :=
  Nat.mod_eq_of_lt (Nat.lt_of_le_of_lt (Nat.mul_le_mul_left rows (le_fullStride cols)) h)

theorem clean_zeros (h : rows * fullStride cols < UInt64.size) : (zeros rows cols : Tensor α).Clean := by
  have hsize : (zeros rows cols : Tensor α).data.size = rows * fullStride cols := by
    rw [zeros, Array.size_replicate, wrap_mul_paddedStride h]
  refine ⟨hsize, h, fun r hr c _ hc => ?_⟩
  have hend : (r + 1) * fullStride cols ≤ rows * fullStride cols := Nat.mul_le_mul_right _ hr
  rw [Nat.succ_mul] at hend
  have hlt : r * fullStride cols + c < rows * fullStride cols := by
    have hc : c < fullStride cols := hc
    omega
  exact Array.getElem?_replicate.trans (if_pos ((wrap_mul_paddedStride h).symm ▸ hlt))

theorem intact_zeros (h : rows * fullStride cols < UInt64.size) (hrows : 0 < rows) :
    (zeros rows cols : Tensor α).Intact := (clean_zeros h).intact hrows

theorem ofFn_eq_tabulate (h : rows * fullStride cols < UInt64.size) (f : Nat → Nat → α) :
    ofFn rows cols f = (zeros rows cols).tabulate fun r c => if c < cols then f r c else 0 := by
  have hsize : (zeros rows cols : Tensor α).data.size = rows * paddedStride cols := by
    rw [zeros, Array.size_replicate, wrap_mul_paddedStride h, mul_paddedStride h]
  rw [tabulate, hsize]
  rfl

theorem clean_ofFn (h : rows * fullStride cols < UInt64.size) (f : Nat → Nat → α) : (ofFn rows cols f).Clean := by
  rcases Nat.eq_zero_or_pos rows with rfl | hrows
  · refine clean_of_no_rows rfl ?_
    simp [ofFn]
  · have hintact : (zeros rows cols : Tensor α).Intact := intact_zeros h hrows
    rw [ofFn_eq_tabulate h]
    refine (hintact.tabulate _).clean fun r hr c hc hstride => ?_
    rw [hintact.get_tabulate _ hr hstride]
    exact if_neg (Nat.not_lt.mpr hc)

/-- The entries of a row of values, for as many rows as the values make. -/
theorem extract_row (h : values.size = n * cols) (hr : r < n) :
    values.extract (r * cols) ((r + 1) * cols) = (Array.range cols).map fun c => values.getD (r * cols + c) 0 := by
  have hend : (r + 1) * cols ≤ values.size := h ▸ Nat.mul_le_mul_right cols hr
  rw [Nat.succ_mul] at hend ⊢
  refine Array.ext (by simp; omega) fun c hc _ => ?_
  have hlt : c < cols := by
    rw [Array.size_extract] at hc
    omega
  have hin : r * cols + c < values.size := by omega
  simp [hin]

/-- **Values copied row by row** over zeros, where they make `n` rows. -/
theorem foldl_setRow_zeros (values : Array α) (h : rows * fullStride cols < UInt64.size) (hn : n ≤ rows)
    (hsize : values.size = n * cols) :
    (List.range n).foldl (fun t r => t.setRow r (values.extract (r * cols) ((r + 1) * cols))) (zeros rows cols) =
      ofFn rows cols fun r c => values.getD (r * cols + c) 0 := by
  have hzeros : (zeros rows cols : Tensor α) = (zeros rows cols).tabulate fun _ _ => 0 :=
    eq_tabulate rfl rfl rfl fun p hp => by
      rw [zeros, Array.size_replicate] at hp
      rw [zeros, Array.getElem?_replicate, if_pos hp]
  have hbeyond {r c : Nat} (hr : ¬ r < n) : values.getD (r * cols + c) 0 = 0 := by
    have hle : n * cols ≤ r * cols := Nat.mul_le_mul_right cols (Nat.not_lt.mp hr)
    rw [Array.getD_eq_getD_getElem?, Array.getElem?_eq_none (by omega), Option.getD_none]
  rw [ofFn_eq_tabulate h]
  rcases Nat.eq_zero_or_pos n with rfl | hpos
  · refine hzeros.trans (congrArg _ (funext fun r => funext fun c => ?_))
    rw [hbeyond (Nat.not_lt_zero r), ite_self]
  · have hintact : (zeros rows cols : Tensor α).Intact := intact_zeros h (Nat.lt_of_lt_of_le hpos hn)
    have hrows := foldl_setRow_tabulate hintact.cols (fun _ _ => 0)
      (fun r c => values.getD (r * cols + c) 0) (fun _ r => values.extract (r * cols) ((r + 1) * cols)) n
      fun r hr _ => extract_row hsize hr
    rw [← hzeros] at hrows
    refine hrows.trans (congrArg _ (funext fun r => funext fun c => ?_))
    by_cases hr : r < n
    · simp [hr, zeros]
    · simp [hr, hbeyond hr]

theorem ofRows_ok (h : rows * fullStride cols < UInt64.size) (hsize : values.size = rows * cols)
    (hroom : rows * fullStride cols * entryBytes < UInt64.size / 2) :
    ofRows rows cols values = .ok (ofFn rows cols fun r c => values.getD (r * cols + c) 0) := by
  have hgiven : values.size / cols ≤ rows := by
    rw [hsize]
    exact Nat.div_le_of_le_mul (Nat.le_of_eq (Nat.mul_comm rows cols))
  have hrows : values.size = values.size / cols * cols :=
    (Nat.div_mul_cancel (hsize ▸ Nat.dvd_mul_left cols rows)).symm
  have hwithin (hpos : 0 < values.size / cols) :
      (values.size / cols - 1) * (zeros rows cols : Tensor α).stride + cols ≤ (zeros rows cols : Tensor α).data.size :=
    (intact_zeros h (Nat.lt_of_lt_of_le hpos hgiven)).rowEnd (Nat.lt_of_lt_of_le (Nat.sub_one_lt_of_lt hpos) hgiven)
  have hallocate : (allocate rows cols : Outcome (Tensor α)) = .ok (zeros rows cols) := by
    rw [allocate, requireRoom, wrap_mul_paddedStride h, if_pos hroom]
    rfl
  rw [← foldl_setRow_zeros values h hgiven hrows, ofRows, wrap_mul_cols h, ← hsize, expectSize_ok, hallocate]
  simp only [bind, Except.bind]
  split
  · next hpos =>
    rw [requireWithin_ok (hwithin hpos)]
    rfl
  · rfl

/-- **When values make a matrix**: there are as many as it has entries, and its buffer can be addressed. -/
theorem ofRows_ok_iff (h : rows * fullStride cols < UInt64.size) : (∃ t, ofRows rows cols values = .ok t) ↔
    values.size = rows * cols ∧ rows * fullStride cols * entryBytes < UInt64.size / 2 := by
  constructor
  · rintro ⟨t, ht⟩
    obtain ⟨_, hsize, ht⟩ := ok_of_bind ht
    obtain ⟨_, hblank, -⟩ := ok_of_bind ht
    obtain ⟨_, hroom, -⟩ := ok_of_bind hblank
    have hsize := eq_of_expectSize hsize
    rw [wrap_mul_cols h] at hsize
    have hroom := lt_of_requireRoom hroom
    rw [wrap_mul_paddedStride h] at hroom
    exact ⟨hsize.symm, hroom⟩
  · rintro ⟨hsize, hroom⟩
    exact ⟨_, ofRows_ok h hsize hroom⟩

theorem eq_ofFn_of_ofRows (h : rows * fullStride cols < UInt64.size) (ht : ofRows rows cols values = .ok t) :
    values.size = rows * cols ∧ t = ofFn rows cols fun r c => values.getD (r * cols + c) 0 := by
  obtain ⟨hsize, hroom⟩ := (ofRows_ok_iff h).mp ⟨t, ht⟩
  rw [ofRows_ok h hsize hroom] at ht
  cases ht
  exact ⟨hsize, rfl⟩

theorem Built.eq_ofFn (ht : Built rows cols t) (h : rows * fullStride cols < UInt64.size) :
    ∃ f, t = ofFn rows cols f := by
  cases ht with
  | zeros ht =>
    obtain ⟨_, -, ht⟩ := ok_of_bind ht
    cases ht
    exact ⟨_, foldl_setRow_zeros #[] h (Nat.zero_le rows) (Nat.zero_mul cols).symm⟩
  | ofRows ht => exact ⟨_, (eq_ofFn_of_ofRows h ht).2⟩
  | ofVector values =>
    have hrow := foldl_setRow_zeros values h (Nat.le_refl 1) (Nat.one_mul _).symm
    refine ⟨_, Eq.trans ?_ hrow⟩
    simp [Tensor.ofVector, List.range_succ]

omit [OfNat α 0] in
/-- The rows that values make, one after the other, are the values. -/
theorem flatten_extract (values : Array α) (cols n : Nat) :
    ((List.range n).map fun r => (values.extract (r * cols) ((r + 1) * cols)).toList).flatten =
      values.toList.take (n * cols) := by
  induction n with
  | zero => simp
  | succ n ih =>
    have hrow : (values.extract (n * cols) ((n + 1) * cols)).toList = (values.toList.drop (n * cols)).take cols := by
      rw [Array.toList_extract, List.extract_eq_take_drop, Nat.succ_mul, Nat.add_sub_cancel_left]
    rw [List.range_succ, List.map_append, List.flatten_append, ih, List.map_singleton, hrow, List.flatten_singleton,
      Nat.succ_mul, List.take_add]

/-- **The rows of a matrix that was made from values** are the values. -/
theorem rows?_ofRows (h : rows * fullStride cols < UInt64.size) (ht : ofRows rows cols values = .ok t) :
    ∃ rs, t.rows? = .ok rs ∧ (rs.map Array.toList).flatten = values.toList := by
  obtain ⟨hsize, rfl⟩ := eq_ofFn_of_ofRows h ht
  refine ⟨_, if_pos (clean_ofFn h _).isWhole, ?_⟩
  have hrow : ∀ r ∈ List.range rows, ((ofFn rows cols fun r c => values.getD (r * cols + c) 0).row r).toList =
      (values.extract (r * cols) ((r + 1) * cols)).toList := fun r hmem => by
    have hr : r < rows := List.mem_range.mp hmem
    have hintact : (zeros rows cols : Tensor α).Intact := intact_zeros h (Nat.zero_lt_of_lt hr)
    rw [ofFn_eq_tabulate h, row_tabulate _ hintact hr, extract_row hsize hr]
    refine congrArg Array.toList (Array.map_congr_left fun c hc => ?_)
    exact if_pos (Array.mem_range.mp hc)
  have hall : values.toList.take (rows * cols) = values.toList := List.take_of_length_le (by simp [hsize])
  rw [rowList, List.map_map, ← hall, ← flatten_extract]
  exact congrArg List.flatten (List.map_congr_left hrow)

theorem Built.clean (ht : Built rows cols t) (h : rows * fullStride cols < UInt64.size) :
    t.rows = rows ∧ t.cols = cols ∧ t.Clean := by
  obtain ⟨f, rfl⟩ := ht.eq_ofFn h
  exact ⟨rfl, rfl, clean_ofFn h f⟩

/-- A row past the last one is not there, as long as its place is within 64 bits. -/
theorem Clean.row?_beyond (h : t.Clean) (hr : t.rows ≤ r) (hcols : 0 < t.cols)
    (hplace : r * fullStride t.cols + t.cols < UInt64.size) : t.row? r = .error .outOfBounds := by
  have hstride : r * t.stride = r * fullStride t.cols := mul_paddedStride (by omega)
  have hstart : t.rowStart r = r * fullStride t.cols := by
    rw [rowStart, hstride, wrap, Nat.mod_eq_of_lt (by omega)]
  have hle : t.rows * fullStride t.cols ≤ r * fullStride t.cols := Nat.mul_le_mul_right _ hr
  have hsize := h.size
  rw [row?, slice?, hstart, wrap, Nat.mod_eq_of_lt hplace, if_neg (by omega)]

/-- **The layout of a tensor is kept.** Let `rows * fullStride cols` fit 64 bits. Whatever `ws` are written to a
tensor that is `Built`, all within its shape, `writeAll` succeeds and the result `t` has rows of `fullStride cols`
entries, the least multiple of 8 that is at least `cols`, with zeros from `cols` on. `row?`, `paddedRow?` and `get?`
read these entries, a row from `rows` on is out of bounds unless its place is past 64 bits, and a further write `w`
changes what `w.result` says and nothing that it does not touch. `t.stride` is `fullStride cols` for all but the last
7 widths, with which there are no rows. `ofRows` succeeds exactly on `rows * cols` values whose buffer can be
addressed, and then the rows are the values. -/
theorem layout_kept (h : rows * fullStride cols < UInt64.size) :
    (∀ t₀ : Tensor α, Built rows cols t₀ → ∀ ws : List (Write α), (∀ w ∈ ws, w.Within rows cols) →
      ∃ t, t₀.writeAll ws = .ok t ∧ t.rows = rows ∧ t.cols = cols ∧
        t.data.size = rows * fullStride cols ∧ IsLeast {n | 8 ∣ n ∧ cols ≤ n} (fullStride cols) ∧
        (t.stride = fullStride cols ↔ cols ≤ UInt64.size - 8) ∧ (rows = 0 ∨ cols ≤ UInt64.size - 8) ∧
        (∀ r < rows, ∀ c, cols ≤ c → c < fullStride cols → t.data[r * fullStride cols + c]? = some 0) ∧
        (∀ r < rows, t.row? r = .ok (t.row r) ∧ (t.row r).size = cols ∧
          t.paddedRow? r = .ok (t.row r ++ Array.replicate (fullStride cols - cols) 0) ∧
          ∀ c < cols, t.get? r c = .ok (t.get r c) ∧ (t.row r)[c]? = some (t.get r c)) ∧
        (∀ r, rows ≤ r → 0 < cols → r * fullStride cols + cols < UInt64.size →
          t.row? r = .error .outOfBounds ∧ ∀ change, t.modifyRow? r change = .error .outOfBounds) ∧
        ∀ w : Write α, w.Within rows cols → ∃ u, w.apply t = .ok u ∧ ∀ r < rows, ∀ c < cols,
          u.get? r c = .ok (w.result t r c) ∧ (¬ w.Touches r c → u.get? r c = t.get? r c)) ∧
    ∀ values : Array α,
      ((∃ t, ofRows rows cols values = .ok t) ↔
        values.size = rows * cols ∧ rows * fullStride cols * entryBytes < UInt64.size / 2) ∧
      ∀ t, ofRows rows cols values = .ok t →
        ∃ rs, t.rows? = .ok rs ∧ (rs.map Array.toList).flatten = values.toList := by
  refine ⟨fun t₀ ht₀ ws hws => ?_, fun values => ⟨ofRows_ok_iff h, fun t ht => rows?_ofRows h ht⟩⟩
  obtain ⟨hrows₀, hcols₀, hclean₀⟩ := ht₀.clean h
  have hws₀ : ∀ w ∈ ws, w.Within t₀.rows t₀.cols := by rwa [hrows₀, hcols₀]
  obtain ⟨t, ht, hrows, hcols, hclean⟩ := hclean₀.writeAll hws₀
  rw [hrows₀] at hrows
  rw [hcols₀] at hcols
  -- the shape of `t` is the only one in what follows
  subst hrows hcols
  refine ⟨t, ht, rfl, rfl, hclean.size, isLeast_fullStride _, paddedStride_eq_iff _, ?_, hclean.filling,
    fun r hr => ?_, fun r hr hpos hplace => ?_, fun w hw => ?_⟩
  · rcases Nat.eq_zero_or_pos t.rows with hnone | hsome
    · exact .inl hnone
    · exact .inr ((paddedStride_eq_iff _).mp (hclean.stride_eq hsome))
  · have hintact := hclean.intact (Nat.zero_lt_of_lt hr)
    exact ⟨hintact.row?_eq hr, size_row hclean.isWhole hr, hclean.paddedRow?_eq hr,
      fun c hc => ⟨hintact.get?_eq hr hc, hclean.row_getElem? hr hc⟩⟩
  · have hbeyond := hclean.row?_beyond hr hpos hplace
    refine ⟨hbeyond, fun change => ?_⟩
    rw [modifyRow?, hbeyond]
    rfl
  · obtain ⟨u, hu, -, -, -, hresult⟩ := hclean.write hw
    refine ⟨u, hu, fun r hr c hc => ⟨hresult r hr c hc, fun huntouched => ?_⟩⟩
    have hintact := hclean.intact (Nat.zero_lt_of_lt hr)
    rw [hresult r hr c hc, w.result_of_untouched t huntouched, hintact.get?_eq hr hc]

end Clean

/-- Two rows of three entries are kept in rows of eight. A matrix of the greatest width has rows of length zero. -/
theorem layout_kept_of_two_rows_not_of_widest :
    (∃ t₀ t : Tensor Int, ofRows 2 3 #[1, 2, 3, 4, 5, 6] = .ok t₀ ∧
      t₀.writeAll [.row 1 Array.reverse, .set 0 2 9, .fill 7] = .ok t ∧
      t.data.size = 16 ∧ t.stride = 8 ∧ t.data[13]? = some 0) ∧
    ∃ t : Tensor Int, allocate 0 (UInt64.size - 1) = .ok t ∧ t.stride ≠ fullStride (UInt64.size - 1) ∧ t.stride = 0 := by
  have htwo : 2 * fullStride 3 < UInt64.size := by decide
  have hnone : 0 * fullStride (UInt64.size - 1) < UInt64.size := by decide
  constructor
  · obtain ⟨hkept, hvalues⟩ := layout_kept (α := Int) htwo
    obtain ⟨t₀, ht₀⟩ := (hvalues #[1, 2, 3, 4, 5, 6]).1.mpr (by decide)
    obtain ⟨t, ht, -, -, hsize, -, hstride, -, hfilling, -⟩ :=
      hkept t₀ (.ofRows ht₀) [.row 1 Array.reverse, .set 0 2 9, .fill 7] (by simp [Write.Within])
    exact ⟨t₀, t, ht₀, ht, hsize, hstride.mpr (by decide), hfilling 1 (by decide) 5 (by decide) (by decide)⟩
  · obtain ⟨t, ht, -, hcols, -, -, hstride, -⟩ :=
      (layout_kept (α := Int) hnone).1 _ (.zeros rfl) [] (by simp)
    cases ht
    exact ⟨_, rfl, fun heq => absurd (hstride.mp heq) (by decide), by decide⟩

end Tensor

end NpcMind
