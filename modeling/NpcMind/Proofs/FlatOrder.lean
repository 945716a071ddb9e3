import NpcMind.Proofs.Parameters

/-!
# The flat order of parameters

Four computations know where a parameter is in the flat order. One writes the layers out row by row; one
finds the layer of a place among the offsets and divides by the length of a row; one changes a parameter
that it found that way; and one cuts a vector into chunks and spreads these over rows with their filling.
For every stack of layers all of them agree: a place of the flat order stands for one parameter.
-/

namespace NpcMind

open Outcome

namespace Cell

variable {c c' : Cell} {i j : Nat}

/-- Where a weight is stored, by its place in the flat order. -/
def stored (c : Cell) (i : Nat) : Nat :=
  i / c.intakeSize * paddedStride c.intakeSize + i % c.intakeSize

theorem intakeSize_pos (hi : i < c.weightCount) : 0 < c.intakeSize := by
  apply Nat.pos_of_ne_zero
  intro hzero
  rw [weightCount, hzero, Nat.mul_zero] at hi
  omega

theorem row_lt (hi : i < c.weightCount) : i / c.intakeSize < 4 * c.hiddenSize :=
  Nat.div_lt_of_lt_mul (by rwa [weightCount, Nat.mul_comm] at hi)

theorem Shaped.get_eq (h : c.Shaped) (i : Nat) :
    c.weights.get (i / c.intakeSize) (i % c.intakeSize) = c.weights.data.getD (c.stored i) 0 := by
  rw [Tensor.get, Tensor.stride, h.cols, stored]

theorem Shaped.stored_lt (h : c.Shaped) (hi : i < c.weightCount) : c.stored i < c.weights.data.size := by
  have hcol : i % c.intakeSize < paddedStride c.intakeSize :=
    Nat.lt_of_lt_of_le (Nat.mod_lt i (intakeSize_pos hi)) h.fits
  rw [h.size, stored]
  calc i / c.intakeSize * paddedStride c.intakeSize + i % c.intakeSize
      < (i / c.intakeSize + 1) * paddedStride c.intakeSize := by rw [Nat.succ_mul]; omega
    _ ≤ 4 * c.hiddenSize * paddedStride c.intakeSize := Nat.mul_le_mul_right _ (row_lt hi)

/-- No two weights are stored in one place: a column is shorter than a row with its filling. -/
theorem Shaped.stored_inj (h : c.Shaped) (hi : i < c.weightCount) (heq : c.stored i = c.stored j) : i = j := by
  have hpos := intakeSize_pos hi
  have hcol (k : Nat) : k % c.intakeSize < paddedStride c.intakeSize :=
    Nat.lt_of_lt_of_le (Nat.mod_lt k hpos) h.fits
  have hstride : 0 < paddedStride c.intakeSize := Nat.lt_of_lt_of_le hpos h.fits
  have hrow (k : Nat) : c.stored k / paddedStride c.intakeSize = k / c.intakeSize := by
    rw [stored, Nat.mul_comm, Nat.mul_add_div hstride, Nat.div_eq_of_lt (hcol k), Nat.add_zero]
  have hmod (k : Nat) : c.stored k % paddedStride c.intakeSize = k % c.intakeSize := by
    rw [stored, Nat.mul_add_mod_self_right, Nat.mod_eq_of_lt (hcol k)]
  calc i = i / c.intakeSize * c.intakeSize + i % c.intakeSize := (Nat.div_add_mod' i _).symm
    _ = j / c.intakeSize * c.intakeSize + j % c.intakeSize := by rw [← hrow, ← hmod, heq, hrow, hmod]
    _ = j := Nat.div_add_mod' j _

/-- **The reader of a layer agrees with its writer.** -/
theorem Shaped.parameter?_eq (h : c.Shaped) (i : Nat) : c.parameter? i = c.flatten[i]? := by
  have hsize := h.size_flatten
  unfold parameter?
  by_cases hi : i < c.weightCount
  · have hplace := h.getD_flatten (row_lt hi) (Nat.mod_lt i (intakeSize_pos hi))
    have hlt : i < c.flatten.size := by
      rw [hsize, parameterCount]
      omega
    rw [Nat.div_add_mod'] at hplace
    rw [if_pos hi, h.get_eq, stored, ← hplace, Array.getElem?_eq_getElem hlt, Array.getElem_eq_getD 0]
  · have hbias := h.extract_flatten
    rw [if_neg hi, ← hbias, Array.getElem?_extract, Nat.min_self, hsize, parameterCount]
    by_cases hlt : i < c.weightCount + 4 * c.hiddenSize
    · rw [if_pos (by omega), Nat.add_sub_cancel' (Nat.not_lt.mp hi)]
    · rw [if_neg (by omega), eq_comm, Array.getElem?_eq_none_iff, hsize, parameterCount]
      omega

theorem Shaped.parameter?_weight (h : c.Shaped) (hi : i < c.weightCount) :
    c.parameter? i = some (c.weights.data.getD (c.stored i) 0) := by
  rw [parameter?, if_pos hi, h.get_eq]

theorem parameter?_bias (hi : ¬ i < c.weightCount) : c.parameter? i = c.bias[i - c.weightCount]? := by
  rw [parameter?, if_neg hi]

/-! ### Adding to a parameter -/

theorem intakeSize_addTo (c : Cell) (i : Nat) (delta : Float32) :
    (c.addTo i delta).intakeSize = c.intakeSize := by
  obtain ⟨hi, hh⟩ := c.addTo_sizes i delta
  rw [intakeSize, hi, hh, intakeSize]

theorem weightCount_addTo (c : Cell) (i : Nat) (delta : Float32) :
    (c.addTo i delta).weightCount = c.weightCount := by
  rw [weightCount, (c.addTo_sizes i delta).2, intakeSize_addTo, weightCount]

theorem Shaped.addTo_weight (h : c.Shaped) (hi : i < c.weightCount) (delta : Float32) :
    (c.addTo i delta).weights.data =
        c.weights.data.setIfInBounds (c.stored i) (c.weights.data.getD (c.stored i) 0 + delta) ∧
      (c.addTo i delta).bias = c.bias := by
  rw [← h.get_eq, Cell.addTo, if_pos hi]
  refine ⟨?_, rfl⟩
  simp only [Tensor.set, Tensor.stride, h.cols, stored]

theorem addTo_bias (hi : ¬ i < c.weightCount) (delta : Float32) :
    (c.addTo i delta).weights.data = c.weights.data ∧
      (c.addTo i delta).bias = c.bias.modify (i - c.weightCount) (· + delta) := by
  rw [addTo, if_neg hi]
  exact ⟨rfl, rfl⟩

/-- **Adding to one parameter changes that one** and no other. -/
theorem Shaped.parameter?_addTo (h : c.Shaped) (i j : Nat) (delta : Float32) :
    (c.addTo i delta).parameter? j =
      if j = i then (c.parameter? i).map (· + delta) else c.parameter? j := by
  have hshaped := h.addTo i delta
  have hcount := c.weightCount_addTo i delta
  have hstored : (c.addTo i delta).stored j = c.stored j := by
    rw [stored, stored, intakeSize_addTo]
  by_cases hi : i < c.weightCount
  · obtain ⟨hweights, hbias⟩ := h.addTo_weight hi delta
    by_cases hj : j < c.weightCount
    · rw [hshaped.parameter?_weight (hcount ▸ hj), h.parameter?_weight hi, h.parameter?_weight hj, hstored,
        hweights, Array.getD_eq_getD_getElem?]
      by_cases hij : j = i
      · subst hij
        rw [if_pos rfl, Array.getElem?_setIfInBounds_self_of_lt (h.stored_lt hj)]
        rfl
      · -- Different weights are stored in different places.
        rw [if_neg hij, Array.getElem?_setIfInBounds_ne fun heq => hij (h.stored_inj hi heq).symm,
          ← Array.getD_eq_getD_getElem?]
    · rw [if_neg (show j ≠ i by omega), parameter?_bias hj, parameter?_bias (hcount ▸ hj), hbias, hcount]
  · obtain ⟨hweights, hbias⟩ := addTo_bias hi delta
    by_cases hj : j < c.weightCount
    · rw [if_neg (show j ≠ i by omega), hshaped.parameter?_weight (hcount ▸ hj), h.parameter?_weight hj,
        hstored, hweights]
    · rw [parameter?_bias hi, parameter?_bias hj, parameter?_bias (hcount ▸ hj), hbias, hcount,
        Array.getElem?_modify]
      by_cases hij : j = i
      · subst hij
        rw [if_pos rfl, if_pos rfl]
      · rw [if_neg hij, if_neg (show i - c.weightCount ≠ j - c.weightCount by omega)]

/-! ### Loading -/

theorem load_ok (c : Cell) {values : Vec} (hv : values.size = c.parameterCount) :
    ∃ c', c.load values = .ok c' := by
  rw [load, if_neg fun hne => hne hv]
  exact ⟨_, rfl⟩

theorem size_of_load {values : Vec} (h : c.load values = .ok c') : values.size = c.parameterCount := by
  by_cases hv : values.size = c.parameterCount
  · exact hv
  · rw [load, if_pos hv] at h
    cases h

/-- **The loader of a layer agrees with its writer.** -/
theorem flatten_of_load (hfits : c.intakeSize ≤ paddedStride c.intakeSize) {values : Vec}
    (h : c.load values = .ok c') : c'.flatten = values := by
  have hv := size_of_load h
  obtain ⟨hshaped, hi, hh⟩ := shaped_of_load hfits h
  have hintake : c'.intakeSize = c.intakeSize := by rw [intakeSize, hi, hh, intakeSize]
  have hcount : c'.weightCount = c.weightCount := by rw [weightCount, hh, hintake, weightCount]
  rw [load, if_neg fun hne => hne hv] at h
  have hweights : c'.weights = Tensor.ofFn (4 * c.hiddenSize) c.intakeSize fun r col =>
      values.getD (r * c.intakeSize + col) 0 := by
    cases h
    rfl
  have hbias : c'.bias = values.extract c.weightCount values.size := by
    cases h
    rfl
  ext1
  · rw [hshaped.size_flatten, hv, parameterCount, hcount, hh, parameterCount]
  · next j hj hj' =>
    apply Option.some.inj
    rw [← Array.getElem?_eq_getElem, ← Array.getElem?_eq_getElem, ← hshaped.parameter?_eq]
    unfold parameter?
    by_cases hw : j < c'.weightCount
    · have hcol : j % c.intakeSize < c.intakeSize := by
        rw [← hintake]
        exact Nat.mod_lt j (intakeSize_pos hw)
      have hstored := hshaped.stored_lt hw
      have hmod : c'.stored j % paddedStride c.intakeSize = j % c.intakeSize := by
        rw [stored, hintake, Nat.mul_add_mod_self_right, Nat.mod_eq_of_lt (Nat.lt_of_lt_of_le hcol hfits)]
      have hrow : c'.stored j / paddedStride c.intakeSize = j / c.intakeSize := by
        rw [stored, hintake, Nat.mul_comm, Nat.mul_add_div (by omega),
          Nat.div_eq_of_lt (Nat.lt_of_lt_of_le hcol hfits), Nat.add_zero]
      rw [hshaped.size, hh, hintake] at hstored
      rw [if_pos hw, hshaped.get_eq, hweights, getD_ofFn, hmod, hrow, if_pos ⟨hstored, hcol⟩,
        Nat.div_add_mod', Array.getElem?_eq_getElem hj', Array.getElem_eq_getD 0]
    · rw [if_neg hw, hbias, hcount, Array.getElem?_extract, Nat.min_self]
      rw [hcount] at hw
      rw [if_pos (by omega), Nat.add_sub_cancel' (Nat.not_lt.mp hw)]

end Cell

namespace Stack

variable {s s' : Stack} {cells cells' : List Cell} {inputSize : Nat} {sizes : List Nat}

/-! ### Finding the layer of a place -/

theorem countOf_cons (c : Cell) (rest : List Cell) :
    countOf (c :: rest) = c.parameterCount + countOf rest := rfl

theorem offsetsFrom_of_fits (h : List.Forall₂ Cell.Fits cells cells') (start : Nat) :
    offsetsFrom start cells = offsetsFrom start cells' := by
  induction h generalizing start with
  | nil => rfl
  | cons hc _ ih => rw [offsetsFrom, offsetsFrom, hc.parameterCount, ih]

theorem locate_of_fits (h : List.Forall₂ Cell.Fits cells cells') (i : Nat) :
    locate cells i = locate cells' i := by
  rw [locate, locate, offsetsFrom_of_fits h]

/-- Layers that start behind a place are passed over. -/
theorem takeWhile_offsetsFrom {i start : Nat} (hi : i < start) (cells : List Cell) :
    (offsetsFrom start cells).takeWhile (· ≤ i) = [] := by
  cases cells with
  | nil => rfl
  | cons c rest => exact List.takeWhile_cons_of_neg (by simpa using hi)

/-- The last of the offsets up to a place is that of the layer which the place falls into. -/
theorem offsets_spec {i start : Nat} (hstart : start ≤ i) (hi : i < start + countOf cells) :
    ∃ layer c, ((offsetsFrom start cells).takeWhile (· ≤ i)).length = layer + 1 ∧ cells[layer]? = some c ∧
      (offsetsFrom start cells).getD layer 0 = start + countOf (cells.take layer) ∧
      start + countOf (cells.take layer) ≤ i ∧
      i < start + countOf (cells.take layer) + c.parameterCount := by
  induction cells generalizing start with
  | nil =>
    simp only [countOf, List.foldr_nil] at hi
    omega
  | cons c rest ih =>
    rw [countOf_cons] at hi
    rw [offsetsFrom, List.takeWhile_cons_of_pos (by simpa using hstart), List.length_cons]
    by_cases hnext : i < start + c.parameterCount
    · refine ⟨0, c, ?_, rfl, rfl, hstart, hnext⟩
      rw [takeWhile_offsetsFrom hnext]
      rfl
    · obtain ⟨layer, c', hlen, hc', hoffset, hle, hlt⟩ :=
        ih (show start + c.parameterCount ≤ i by omega) (by omega)
      refine ⟨layer + 1, c', by rw [hlen], hc', ?_, ?_, ?_⟩
      · rw [List.getD_cons_succ, hoffset, List.take_succ_cons, countOf_cons]
        omega
      · rw [List.take_succ_cons, countOf_cons]
        omega
      · rw [List.take_succ_cons, countOf_cons]
        omega

/-- **A place of the flat order falls into one of the layers**, behind those in front of it. -/
theorem locate_spec {i : Nat} (hi : i < countOf cells) :
    ∃ c, cells[(locate cells i).1]? = some c ∧ (locate cells i).2 < c.parameterCount ∧
      countOf (cells.take (locate cells i).1) + (locate cells i).2 = i := by
  obtain ⟨layer, c, hlen, hc, hoffset, hle, hlt⟩ :=
    offsets_spec (Nat.zero_le i) (show i < 0 + countOf cells by omega)
  have hlocate : locate cells i = (layer, i - countOf (cells.take layer)) := by
    rw [locate, hlen, Nat.add_sub_cancel, hoffset, Nat.zero_add]
  rw [hlocate]
  refine ⟨c, hc, ?_, ?_⟩
  · show i - countOf (cells.take layer) < c.parameterCount
    omega
  · show countOf (cells.take layer) + (i - countOf (cells.take layer)) = i
    omega

/-! ### Reading and adding -/

/-- The parameters of a layer in the flat order of all layers. -/
theorem getElem?_flatten {layer place : Nat} {c : Cell} (h : List.Forall₂ Cell.Fits cells cells)
    (hc : cells[layer]? = some c) (hplace : place < c.parameterCount) :
    (cells.foldl (fun acc c => acc ++ c.flatten) (#[] : Vec))[countOf (cells.take layer) + place]? =
      c.flatten[place]? := by
  induction cells generalizing layer with
  | nil => simp at hc
  | cons c₀ rest ih =>
    obtain ⟨hc₀, hrest⟩ := List.forall₂_cons.mp h
    have hsize := hc₀.shaped.size_flatten
    rw [List.foldl_cons, flattenFrom, Array.empty_append]
    cases layer with
    | zero =>
      obtain rfl : c₀ = c := by simpa using hc
      rw [List.take_zero, show countOf [] + place = place from Nat.zero_add place,
        Array.getElem?_append_left (by omega)]
    | succ layer =>
      rw [List.take_succ_cons, countOf_cons, Array.getElem?_append_right (by omega), ← ih hrest hc]
      congr 1
      omega

theorem OfShape.size_flatten (h : s.OfShape inputSize sizes) : s.flatten.size = s.parameterCount :=
  size_flatten_of_fits h.layered.fits

theorem parameter?_at {i : Nat} {c : Cell} (hc : s.layers[(locate s.layers i).1]? = some c) :
    s.parameter? i = c.parameter? (locate s.layers i).2 := by
  show (s.layers[(locate s.layers i).1]?).bind (·.parameter? (locate s.layers i).2) = _
  rw [hc, Option.bind_some]

theorem OfShape.shaped_at (h : s.OfShape inputSize sizes) {layer : Nat} {c : Cell}
    (hc : s.layers[layer]? = some c) : c.Shaped :=
  (List.forall₂_same.mp h.layered.fits c (List.mem_of_getElem? hc)).shaped

/-- **The reader of a stack agrees with its writer.** -/
theorem OfShape.parameter?_eq (h : s.OfShape inputSize sizes) {i : Nat} (hi : i < s.parameterCount) :
    s.parameter? i = s.flatten[i]? := by
  obtain ⟨c, hc, hplace, hindex⟩ := locate_spec hi
  calc s.parameter? i = c.parameter? (locate s.layers i).2 := parameter?_at hc
    _ = c.flatten[(locate s.layers i).2]? := (h.shaped_at hc).parameter?_eq _
    _ = s.flatten[countOf (s.layers.take (locate s.layers i).1) + (locate s.layers i).2]? :=
      (getElem?_flatten h.layered.fits hc hplace).symm
    _ = s.flatten[i]? := by rw [hindex]

theorem OfShape.addTo (h : s.OfShape inputSize sizes) (i : Nat) (delta : Float32) :
    (s.addTo i delta).OfShape inputSize sizes :=
  h.of_fits (h.fits.addTo i delta)

/-- Adding to one parameter of a stack changes no other one. -/
theorem OfShape.parameter?_addTo (h : s.OfShape inputSize sizes) {i j : Nat} (hi : i < s.parameterCount)
    (hj : j < s.parameterCount) (delta : Float32) :
    (s.addTo i delta).parameter? j =
      if j = i then (s.parameter? i).map (· + delta) else s.parameter? j := by
  obtain ⟨c, hc, -, hi⟩ := locate_spec hi
  obtain ⟨d, hd, -, hj⟩ := locate_spec hj
  have hlocate : locate (s.addTo i delta).layers j = locate s.layers j :=
    locate_of_fits (h.fits.addTo i delta).layers j
  have hread : (s.addTo i delta).layers[(locate (s.addTo i delta).layers j).1]? =
      some (if (locate s.layers i).1 = (locate s.layers j).1 then d.addTo (locate s.layers i).2 delta
        else d) := by
    rw [hlocate]
    show (s.layers.modify (locate s.layers i).1 fun c => c.addTo (locate s.layers i).2 delta)[_]? = _
    rw [List.getElem?_modify, hd]
    rfl
  rw [parameter?_at hread, parameter?_at hc, parameter?_at hd, hlocate]
  by_cases hlayer : (locate s.layers i).1 = (locate s.layers j).1
  · obtain rfl : c = d := by
      rw [hlayer, hd] at hc
      exact (Option.some.inj hc).symm
    rw [if_pos hlayer, (h.shaped_at hc).parameter?_addTo]
    rw [hlayer] at hi
    by_cases hij : j = i
    · rw [if_pos hij, if_pos (by rw [hij])]
    · rw [if_neg hij, if_neg (by omega)]
  · rw [if_neg hlayer, if_neg fun hij => hlayer (by rw [hij])]

theorem OfShape.flatten_addTo (h : s.OfShape inputSize sizes) {i : Nat} (hi : i < s.flatten.size)
    (delta : Float32) : (s.addTo i delta).flatten = s.flatten.set i (s.flatten[i] + delta) hi := by
  have hadded := h.addTo i delta
  have hcount : (s.addTo i delta).parameterCount = s.parameterCount := (h.fits.addTo i delta).parameterCount
  have hsize := h.size_flatten
  ext1
  · rw [Array.size_set, hadded.size_flatten, hcount, hsize]
  · next j hj hj' =>
    have hj₀ : j < s.parameterCount := by rwa [hadded.size_flatten, hcount] at hj
    apply Option.some.inj
    rw [← Array.getElem?_eq_getElem, ← Array.getElem?_eq_getElem, ← hadded.parameter?_eq (hcount.symm ▸ hj₀),
      h.parameter?_addTo (hsize ▸ hi) hj₀, Array.getElem?_set, h.parameter?_eq (hsize ▸ hi), h.parameter?_eq hj₀,
      Array.getElem?_eq_getElem hi]
    by_cases hij : j = i
    · rw [if_pos hij, if_pos hij.symm, Option.map_some]
    · rw [if_neg hij, if_neg fun heq => hij heq.symm]

/-! ### Loading -/

theorem loadLayers_ok (h : List.Forall₂ Cell.Fits cells cells) {values : Vec}
    (hv : values.size = countOf cells) : ∃ cells', loadLayers cells values = .ok cells' ∧
      cells'.foldl (fun acc c => acc ++ c.flatten) (#[] : Vec) = values := by
  induction cells generalizing values with
  | nil =>
    refine ⟨[], rfl, ?_⟩
    exact (Array.eq_empty_of_size_eq_zero hv).symm
  | cons c rest ih =>
    obtain ⟨hc, hrest⟩ := List.forall₂_cons.mp h
    rw [countOf_cons] at hv
    have hhead : (values.extract 0 c.parameterCount).size = c.parameterCount := by
      rw [Array.size_extract]
      omega
    have htail : (values.extract c.parameterCount values.size).size = countOf rest := by
      rw [Array.size_extract]
      omega
    obtain ⟨c', hc'⟩ := c.load_ok hhead
    obtain ⟨rest', hrest', hflat⟩ := ih hrest htail
    refine ⟨c' :: rest', ?_, ?_⟩
    · rw [loadLayers, hc', hrest']
      rfl
    · rw [List.foldl_cons, flattenFrom, Array.empty_append, hflat, Cell.flatten_of_load hc.shaped.fits hc',
        Array.extract_append_extract, Nat.min_eq_left (Nat.zero_le _), Nat.max_eq_right (by omega),
        Array.extract_size]

theorem OfShape.load_ok (h : s.OfShape inputSize sizes) {values : Vec} (hv : values.size = s.parameterCount) :
    ∃ s', s.load values = .ok s' ∧ s'.OfShape inputSize sizes ∧ s'.flatten = values := by
  obtain ⟨layers, hlayers, hflat⟩ := loadLayers_ok h.layered.fits hv
  have hload : s.load values = .ok { s with layers } := by
    unfold load
    dsimp only
    rw [if_neg fun hne => hne hv, hlayers]
    rfl
  exact ⟨_, hload, h.of_fits (fits_of_load h.fits hload), hflat⟩

theorem load_error (s : Stack) {values : Vec} (hv : values.size ≠ s.parameterCount) :
    s.load values = .error (.parameterCount s.parameterCount values.size) := by
  unfold load
  dsimp only
  rw [if_pos hv]
  rfl

/-- Loading in place: the layers are written one after the other, and those in front of a failure stay
written. -/
def overwriteLayers : List Cell → Vec → Outcome Unit × List Cell
  | [], _ => (.ok (), [])
  | c :: rest, values =>
    match c.load (values.extract 0 c.parameterCount) with
    | .error e => (.error e, c :: rest)
    | .ok loaded =>
      let (answer, rest) := overwriteLayers rest (values.extract c.parameterCount values.size)
      (answer, loaded :: rest)

/-- Loading into the stack in place. -/
def overwrite (s : Stack) (values : Vec) : Outcome Unit × Stack :=
  if values.size ≠ s.parameterCount then (.error (.parameterCount s.parameterCount values.size), s)
  else
    let (answer, layers) := overwriteLayers s.layers values
    (answer, { s with layers })

theorem overwriteLayers_of_load {values : Vec} (h : loadLayers cells values = .ok cells') :
    overwriteLayers cells values = (.ok (), cells') := by
  induction cells generalizing values cells' with
  | nil =>
    cases h
    rfl
  | cons c rest ih =>
    obtain ⟨loaded, hloaded, h⟩ := ok_of_bind h
    obtain ⟨rest', hrest, h⟩ := ok_of_bind h
    cases h
    rw [overwriteLayers, hloaded]
    dsimp only
    rw [ih hrest]

theorem overwrite_of_load {values : Vec} (hv : values.size = s.parameterCount) (h : s.load values = .ok s') :
    s.overwrite values = (.ok (), s') := by
  unfold load at h
  dsimp only at h
  rw [if_neg fun hne => hne hv] at h
  obtain ⟨layers, hlayers, h⟩ := ok_of_bind h
  cases h
  rw [overwrite, if_neg fun hne => hne hv, overwriteLayers_of_load hlayers]

/-! ### The flat order -/

/-- **The flat order addresses every parameter once.** For a stack `s` of the shape `inputSize`, `sizes`, `s.flatten`
has `s.parameterCount` entries, and `s.parameter? i` is the entry `i` of it. `load` and `overwrite` take exactly the
vectors of that size: the stack `s'` they lead to has `s'.flatten = values`, and with any other size both are the
error on the parameter count, with `s` unchanged. `s.load s.flatten` is `s`, and `s.addTo i delta` adds `delta` to the
entry `i` of `s.flatten` and to no other. -/
theorem flatOrder_bijective (h : s.OfShape inputSize sizes) :
    s.flatten.size = s.parameterCount ∧
      (∀ i (hi : i < s.flatten.size), s.parameter? i = some s.flatten[i]) ∧
      (∀ values : Vec, values.size = s.parameterCount → ∃ s', s.load values = .ok s' ∧
        s'.OfShape inputSize sizes ∧ s'.flatten = values ∧ s.overwrite values = (.ok (), s')) ∧
      (∀ values : Vec, values.size ≠ s.parameterCount →
        s.load values = .error (.parameterCount s.parameterCount values.size) ∧
        s.overwrite values = (.error (.parameterCount s.parameterCount values.size), s)) ∧
      s.load s.flatten = .ok s ∧
      ∀ i (hi : i < s.flatten.size) (delta : Float32), (s.addTo i delta).OfShape inputSize sizes ∧
        (s.addTo i delta).flatten = s.flatten.set i (s.flatten[i] + delta) hi := by
  refine ⟨h.size_flatten, fun i hi => ?_, fun values hv => ?_, fun values hv => ?_, h.fits.load_flatten,
    fun i hi delta => ⟨h.addTo i delta, h.flatten_addTo hi delta⟩⟩
  · rw [h.parameter?_eq (h.size_flatten ▸ hi), Array.getElem?_eq_getElem hi]
  · obtain ⟨s', hload, hshape, hflat⟩ := h.load_ok hv
    exact ⟨s', hload, hshape, hflat, overwrite_of_load hv hload⟩
  · exact ⟨s.load_error hv, by rw [overwrite, if_pos hv]⟩

/-- Two layers for three inputs: the fifty-first place is the second layer's third weight, and the
filling of the rows takes no place. -/
theorem flatOrder_bijective_two_layers : ∃ s, ofConfig 3 { hiddenSizes := [2, 1] } = .ok s ∧
    s.OfShape 3 [2, 1] ∧ s.flatten.size = 64 ∧ locate s.layers 50 = (1, 2) ∧ s.load s.flatten = .ok s ∧
    s.load #[1] = .error (.parameterCount 64 1) ∧ s.overwrite #[1] = (.error (.parameterCount 64 1), s) ∧
    (s.addTo 50 1).OfShape 3 [2, 1] ∧ (s.addTo 50 1).flatten.size = 64 := by
  have hs : ofConfig 3 { hiddenSizes := [2, 1] } = .ok _ := rfl
  have hshape := ofShape_ofConfig hs
  obtain ⟨hsize, -, -, hreject, hload, hadd⟩ := flatOrder_bijective hshape
  obtain ⟨herror, hkept⟩ := hreject #[1] (by decide)
  obtain ⟨hadded, hflat⟩ := hadd 50 (by rw [hsize]; decide) 1
  exact ⟨_, hs, hshape, hsize, rfl, hload, herror, hkept, hadded, by rw [hflat, Array.size_set, hsize]; rfl⟩

end Stack

end NpcMind
