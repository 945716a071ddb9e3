import Mathlib.Data.List.Forall2
import NpcMind.Proofs.Layout
import NpcMind.Proofs.Outcome
import NpcMind.Recurrent.Stack

/-!
# Parameters keep their shape

However the parameters of a controller are adapted, every layer keeps the sizes it was built with and the
filling of its rows stays zero. Therefore the flat order of the parameters says all about them: loading
what was flattened gives the same controller back.
-/

namespace NpcMind

open Outcome

namespace Cell

variable {c c₀ : Cell}

/-- The sizes of a layer fit together, and its rows are filled up with zeros. -/
structure Shaped (c : Cell) : Prop where
  rows : c.weights.rows = 4 * c.hiddenSize
  cols : c.weights.cols = c.intakeSize
  fits : c.intakeSize ≤ paddedStride c.intakeSize
  size : c.weights.data.size = 4 * c.hiddenSize * paddedStride c.intakeSize
  filling : ∀ j, c.intakeSize ≤ j % paddedStride c.intakeSize → c.weights.data.getD j 0 = 0
  bias : c.bias.size = 4 * c.hiddenSize

theorem getD_ofFn (rows cols : Nat) (f : Nat → Nat → Float32) (j : Nat) :
    (Tensor.ofFn rows cols f).data.getD j 0 =
      if j < rows * paddedStride cols ∧ j % paddedStride cols < cols then
        f (j / paddedStride cols) (j % paddedStride cols) else 0 := by
  simp only [Tensor.ofFn, Array.getD_eq_getD_getElem?, Array.getElem?_map]
  by_cases hj : j < rows * paddedStride cols
  · by_cases hc : j % paddedStride cols < cols <;> simp [hj, hc]
  · simp [hj]

theorem shaped_ofFn (inputSize hiddenSize : Nat) (f : Nat → Nat → Float32) {bias : Vec}
    (hfits : wrap (inputSize + hiddenSize) ≤ paddedStride (wrap (inputSize + hiddenSize)))
    (hbias : bias.size = 4 * hiddenSize) :
    Shaped ⟨inputSize, hiddenSize, Tensor.ofFn (4 * hiddenSize) (wrap (inputSize + hiddenSize)) f, bias⟩ where
  rows := rfl
  cols := rfl
  fits := hfits
  size := by simp [Tensor.ofFn, intakeSize]
  filling := by
    intro j hj
    rw [getD_ofFn, if_neg]
    exact fun h => Nat.not_lt.mpr hj h.2
  bias := hbias

theorem Shaped.allocate {inputSize hiddenSize : Nat} {seed : UInt64} {forgetBias : Float32}
    (hpos : 0 < hiddenSize) (h : allocate inputSize hiddenSize seed forgetBias = .ok c) :
    c.Shaped ∧ c.inputSize = inputSize ∧ c.hiddenSize = hiddenSize := by
  unfold Cell.allocate at h
  obtain ⟨-, -, h⟩ := ok_of_bind h
  obtain ⟨-, -, h⟩ := ok_of_bind h
  dsimp only at h
  rw [if_pos hpos] at h
  obtain ⟨_, hfits, h⟩ := ok_of_bind h
  cases h
  refine ⟨shaped_ofFn inputSize hiddenSize _ ?_ ?_, rfl, rfl⟩
  · exact le_of_requireWithin hfits
  · simp only [Array.size_append, Array.size_replicate, Vec.zeros]
    omega

theorem Shaped.addTo (h : c.Shaped) (i : Nat) (delta : Float32) : (c.addTo i delta).Shaped := by
  unfold Cell.addTo
  split
  · next hi =>
    have hpos : 0 < c.intakeSize := by
      rcases Nat.eq_zero_or_pos c.intakeSize with hz | hpos
      · rw [weightCount, hz, Nat.mul_zero] at hi
        exact absurd hi (Nat.not_lt_zero i)
      · exact hpos
    have hcol : i % c.intakeSize < c.intakeSize := Nat.mod_lt i hpos
    refine ⟨h.rows, h.cols, h.fits, ?_, fun j hj => ?_, h.bias⟩
    · simp only [Tensor.set, Array.size_setIfInBounds]
      exact h.size
    · -- The changed place lies in front of the filling of its row.
      have hplace : (i / c.intakeSize * paddedStride c.intakeSize + i % c.intakeSize) %
          paddedStride c.intakeSize = i % c.intakeSize := by
        rw [Nat.mul_add_mod_self_right, Nat.mod_eq_of_lt (Nat.lt_of_lt_of_le hcol h.fits)]
      have hne : i / c.intakeSize * paddedStride c.intakeSize + i % c.intakeSize ≠ j := by
        rintro rfl
        exact absurd (hplace ▸ hj) (Nat.not_le.mpr hcol)
      have hother := h.filling j hj
      rw [Array.getD_eq_getD_getElem?] at hother ⊢
      simp only [Tensor.set, Tensor.stride, h.cols]
      rw [Array.getElem?_setIfInBounds_ne hne]
      exact hother
  · exact ⟨h.rows, h.cols, h.fits, h.size, h.filling, by rw [Array.size_modify]; exact h.bias⟩

theorem addTo_sizes (c : Cell) (i : Nat) (delta : Float32) :
    (c.addTo i delta).inputSize = c.inputSize ∧ (c.addTo i delta).hiddenSize = c.hiddenSize := by
  unfold Cell.addTo
  split <;> exact ⟨rfl, rfl⟩

/-! ### The flat order -/

theorem Shaped.row_size (h : c.Shaped) {r : Nat} (hr : r < 4 * c.hiddenSize) :
    (c.weights.row r).size = c.intakeSize := by
  have hend : r * paddedStride c.intakeSize + c.intakeSize ≤ 4 * c.hiddenSize * paddedStride c.intakeSize :=
    calc r * paddedStride c.intakeSize + c.intakeSize
        ≤ (r + 1) * paddedStride c.intakeSize := by rw [Nat.succ_mul]; exact Nat.add_le_add_left h.fits _
      _ ≤ 4 * c.hiddenSize * paddedStride c.intakeSize := Nat.mul_le_mul_right _ hr
  rw [Tensor.row, Tensor.stride, h.cols, Array.size_extract, h.size, Nat.min_eq_left hend]
  omega

theorem Shaped.toList_flatten (h : c.Shaped) : c.flatten.toList =
    ((List.range (4 * c.hiddenSize)).flatMap fun r => (c.weights.row r).toList) ++ c.bias.toList := by
  rw [flatten, Array.toList_append, Tensor.rowList, h.rows,
    Layout.toList_foldl_append (fun xs : Array Float32 => xs), List.flatMap_map]
  simp

theorem Shaped.size_flatten (h : c.Shaped) : c.flatten.size = c.parameterCount := by
  have hrows : ∀ r ∈ List.range (4 * c.hiddenSize), (c.weights.row r).toList.length = c.intakeSize :=
    fun r hr => h.row_size (List.mem_range.mp hr)
  rw [← Array.length_toList, h.toList_flatten, List.length_append, Layout.length_flatMap_of_blocks hrows,
    List.length_range, Array.length_toList, h.bias, parameterCount, weightCount]

/-- A weight at its place of the flat order. -/
theorem Shaped.getD_flatten (h : c.Shaped) {r col : Nat} (hr : r < 4 * c.hiddenSize)
    (hcol : col < c.intakeSize) :
    c.flatten.getD (r * c.intakeSize + col) 0 =
      c.weights.data.getD (r * paddedStride c.intakeSize + col) 0 := by
  have hrows : ∀ r ∈ List.range (4 * c.hiddenSize), (c.weights.row r).toList.length = c.intakeSize :=
    fun r hr => h.row_size (List.mem_range.mp hr)
  have hplace : r * c.intakeSize + col < 4 * c.hiddenSize * c.intakeSize :=
    calc r * c.intakeSize + col
        < (r + 1) * c.intakeSize := by rw [Nat.succ_mul]; exact Nat.add_lt_add_left hcol _
      _ ≤ 4 * c.hiddenSize * c.intakeSize := Nat.mul_le_mul_right _ hr
  have hrow : (c.weights.row r)[col]? = c.weights.data[r * paddedStride c.intakeSize + col]? := by
    have hsize := h.row_size hr
    simp only [Tensor.row, Tensor.stride, h.cols, Array.size_extract] at hsize ⊢
    rw [Array.getElem?_extract, if_pos (by omega)]
  rw [Array.getD_eq_getD_getElem?, ← Array.getElem?_toList, h.toList_flatten, List.getElem?_append_left,
    Layout.getElem?_flatMap_of_blocks hrows hcol, List.getElem?_range hr, Option.bind_some,
    Array.getElem?_toList, hrow, Array.getD_eq_getD_getElem?]
  rw [Layout.length_flatMap_of_blocks hrows, List.length_range]
  exact hplace

theorem Shaped.extract_flatten (h : c.Shaped) :
    c.flatten.extract c.weightCount c.flatten.size = c.bias := by
  have hrows : ∀ r ∈ List.range (4 * c.hiddenSize), (c.weights.row r).toList.length = c.intakeSize :=
    fun r hr => h.row_size (List.mem_range.mp hr)
  have hlen : ((List.range (4 * c.hiddenSize)).flatMap fun r => (c.weights.row r).toList).length =
      c.weightCount := by
    rw [Layout.length_flatMap_of_blocks hrows, List.length_range, weightCount]
  apply Array.toList_inj.mp
  rw [Array.toList_extract, List.extract_eq_take_drop, h.toList_flatten, List.drop_left' hlen,
    h.size_flatten, parameterCount, List.take_of_length_le]
  rw [Array.length_toList, h.bias]
  omega

/-- Loading flattened parameters gives them back, whatever was there before. -/
theorem Shaped.load_flatten (h : c.Shaped) (hi : c₀.inputSize = c.inputSize)
    (hh : c₀.hiddenSize = c.hiddenSize) : c₀.load c.flatten = .ok c := by
  have hintake : c₀.intakeSize = c.intakeSize := by rw [intakeSize, hi, hh, intakeSize]
  have hcount : c₀.weightCount = c.weightCount := by rw [weightCount, hh, hintake, weightCount]
  have hsize : c.flatten.size = c₀.parameterCount := by
    rw [h.size_flatten, parameterCount, parameterCount, hcount, hh]
  have hweights : Tensor.ofFn (4 * c.hiddenSize) c.intakeSize
      (fun r col => c.flatten.getD (r * c.intakeSize + col) 0) = c.weights := by
    have hdata : (Tensor.ofFn (4 * c.hiddenSize) c.intakeSize
        (fun r col => c.flatten.getD (r * c.intakeSize + col) 0)).data = c.weights.data := by
      refine Array.ext ?_ fun j hj hj' => ?_
      · simp [Tensor.ofFn, h.size]
      · rw [Array.getElem_eq_getD 0, Array.getElem_eq_getD 0, getD_ofFn]
        rw [h.size] at hj'
        split
        · next hcol =>
          have hr : j / paddedStride c.intakeSize < 4 * c.hiddenSize :=
            Nat.div_lt_of_lt_mul (by rwa [Nat.mul_comm])
          rw [h.getD_flatten hr hcol.2, Nat.div_add_mod']
        · next hcol =>
          exact (h.filling j (Nat.not_lt.mp fun hlt => hcol ⟨hj', hlt⟩)).symm
    calc Tensor.ofFn (4 * c.hiddenSize) c.intakeSize _
        = ⟨4 * c.hiddenSize, c.intakeSize, c.weights.data⟩ := by rw [← hdata]; rfl
      _ = c.weights := by rw [← h.rows, ← h.cols]
  rw [load, if_neg fun hne => hne hsize, hintake, hcount, hh, hi, hweights, h.extract_flatten]

theorem shaped_of_load (hfits : c₀.intakeSize ≤ paddedStride c₀.intakeSize) {values : Vec}
    (h : c₀.load values = .ok c) : c.Shaped ∧ c.inputSize = c₀.inputSize ∧ c.hiddenSize = c₀.hiddenSize := by
  unfold load at h
  split at h
  · cases h
  · next hsize =>
    cases h
    refine ⟨shaped_ofFn c₀.inputSize c₀.hiddenSize _ hfits ?_, rfl, rfl⟩
    rw [Array.size_extract]
    have hcount : values.size = c₀.weightCount + 4 * c₀.hiddenSize := Decidable.not_not.mp hsize
    omega

/-- The layer has the shape of another one. -/
structure Fits (c c₀ : Cell) : Prop where
  shaped : c.Shaped
  inputSize : c.inputSize = c₀.inputSize
  hiddenSize : c.hiddenSize = c₀.hiddenSize

theorem Fits.parameterCount (h : c.Fits c₀) : c.parameterCount = c₀.parameterCount := by
  simp only [Cell.parameterCount, weightCount, intakeSize, h.inputSize, h.hiddenSize]

end Cell

namespace Stack

variable {s s' shared : Stack} {cells cells' : List Cell} {inputSize : Nat} {sizes : List Nat}

/-- The controller has the shape of another one. -/
structure Fits (s shared : Stack) : Prop where
  inputSize : s.inputSize = shared.inputSize
  layers : List.Forall₂ Cell.Fits s.layers shared.layers

theorem hiddenSizes_of_fits (h : List.Forall₂ Cell.Fits cells cells') :
    cells.map Cell.hiddenSize = cells'.map Cell.hiddenSize := by
  induction h with
  | nil => rfl
  | cons hc _ ih => rw [List.map_cons, List.map_cons, hc.hiddenSize, ih]

theorem countOf_of_fits (h : List.Forall₂ Cell.Fits cells cells') : countOf cells = countOf cells' := by
  induction h with
  | nil => rfl
  | cons hc _ ih =>
    unfold countOf at ih ⊢
    rw [List.foldr_cons, List.foldr_cons, hc.parameterCount, ih]

theorem Fits.hiddenSizes (h : s.Fits shared) : s.hiddenSizes = shared.hiddenSizes :=
  hiddenSizes_of_fits h.layers

theorem Fits.parameterCount (h : s.Fits shared) : s.parameterCount = shared.parameterCount :=
  countOf_of_fits h.layers

theorem finalSize_eq (s : Stack) : s.finalSize = s.hiddenSizes.getLast?.getD 0 := by
  rw [finalSize, Stack.hiddenSizes, List.getLast?_map]

theorem Fits.outputSize (h : s.Fits shared) (mode : OutputMode) :
    s.outputSize mode = shared.outputSize mode := by
  cases mode with
  | finalLayer => rw [Stack.outputSize, Stack.outputSize, finalSize_eq, finalSize_eq, h.hiddenSizes]
  | allLayers => rw [Stack.outputSize, Stack.outputSize, h.hiddenSizes]

/-! ### Stacks of a shape -/

/-- Layers of the given widths, the first of which takes in so many values and each other one what the one
before it gives out. -/
inductive Layered : Nat → List Nat → List Cell → Prop
  | nil (inputSize : Nat) : Layered inputSize [] []
  | cons {c : Cell} {sizes : List Nat} {rest : List Cell} : c.Shaped → Layered c.hiddenSize sizes rest →
      Layered c.inputSize (c.hiddenSize :: sizes) (c :: rest)

/-- A stack for an input of that size, with layers of those widths. -/
structure OfShape (inputSize : Nat) (sizes : List Nat) (s : Stack) : Prop where
  input : s.inputSize = inputSize
  layered : Layered inputSize sizes s.layers

theorem Layered.fits (h : Layered inputSize sizes cells) : List.Forall₂ Cell.Fits cells cells := by
  induction h with
  | nil => exact .nil
  | cons hc _ ih => exact .cons ⟨hc, rfl, rfl⟩ ih

theorem Layered.of_fits (h : Layered inputSize sizes cells') (hf : List.Forall₂ Cell.Fits cells cells') :
    Layered inputSize sizes cells := by
  induction h generalizing cells with
  | nil n =>
    cases hf
    exact .nil n
  | cons _ _ ih =>
    obtain ⟨c, rest, hc, hrest, rfl⟩ := List.forall₂_cons_right_iff.mp hf
    have hlayers := ih hrest
    rw [← hc.hiddenSize] at hlayers
    rw [← hc.inputSize, ← hc.hiddenSize]
    exact .cons hc.shaped hlayers

theorem OfShape.fits (h : s.OfShape inputSize sizes) : s.Fits s := ⟨rfl, h.layered.fits⟩

theorem OfShape.of_fits (h : s.OfShape inputSize sizes) (hf : s'.Fits s) : s'.OfShape inputSize sizes :=
  ⟨hf.inputSize.trans h.input, h.layered.of_fits hf.layers⟩

theorem layered_layersFrom {c : Config.Controller} (hpos : 0 ∉ sizes) {number : Nat}
    (h : layersFrom c inputSize number sizes = .ok cells) : Layered inputSize sizes cells := by
  induction sizes generalizing inputSize number cells with
  | nil =>
    cases h
    exact .nil inputSize
  | cons hiddenSize rest ih =>
    obtain ⟨cell, hcell, h⟩ := ok_of_bind h
    obtain ⟨tail, htail, h⟩ := ok_of_bind h
    cases h
    obtain ⟨hhead, hrest⟩ : 0 ≠ hiddenSize ∧ 0 ∉ rest := by simpa using hpos
    obtain ⟨hshaped, rfl, rfl⟩ := Cell.Shaped.allocate (Nat.pos_of_ne_zero hhead.symm) hcell
    exact .cons hshaped (ih hrest htail)

/-- What a configuration builds has the shape that it asks for. -/
theorem ofShape_ofConfig {c : Config.Controller} (h : ofConfig inputSize c = .ok s) :
    s.OfShape inputSize c.hiddenSizes := by
  unfold ofConfig at h
  dsimp only at h
  split at h
  · cases h
  · next hsizes =>
    obtain ⟨layers, hlayers, h⟩ := ok_of_bind h
    cases h
    refine ⟨rfl, layered_layersFrom (fun hmem => hsizes ?_) hlayers⟩
    simp [hmem]

theorem Layered.hiddenSizes (h : Layered inputSize sizes cells) : cells.map Cell.hiddenSize = sizes := by
  induction h with
  | nil => rfl
  | cons _ _ ih => rw [List.map_cons, ih]

theorem fits_ofConfig {c : Config.Controller} (h : ofConfig inputSize c = .ok s) : s.Fits s :=
  (ofShape_ofConfig h).fits

theorem hiddenSizes_ofConfig {c : Config.Controller} (h : ofConfig inputSize c = .ok s) :
    s.hiddenSizes = c.hiddenSizes :=
  (ofShape_ofConfig h).layered.hiddenSizes

/-! ### Adapting -/

theorem fits_modify (h : List.Forall₂ Cell.Fits cells cells') (layer place : Nat) (delta : Float32) :
    List.Forall₂ Cell.Fits (cells.modify layer fun c => c.addTo place delta) cells' := by
  induction h generalizing layer with
  | nil =>
    rw [List.modify_nil]
    exact .nil
  | @cons c c' _ _ hc hrest ih =>
    cases layer with
    | zero =>
      obtain ⟨hi, hh⟩ := c.addTo_sizes place delta
      rw [List.modify_zero_cons]
      exact .cons ⟨hc.shaped.addTo place delta, hi.trans hc.inputSize, hh.trans hc.hiddenSize⟩ hrest
    | succ layer =>
      rw [List.modify_succ_cons]
      exact .cons hc (ih layer)

theorem Fits.addTo (h : s.Fits shared) (i : Nat) (delta : Float32) : (s.addTo i delta).Fits shared :=
  ⟨h.inputSize, fits_modify h.layers _ _ delta⟩

theorem Fits.addAll (h : s.Fits shared) (updates : List (Nat × Float32)) :
    (updates.foldl (fun s e => s.addTo e.1 e.2) s).Fits shared := by
  induction updates generalizing s with
  | nil => exact h
  | cons e rest ih => exact ih (h.addTo e.1 e.2)

/-! ### Saving and loading -/

theorem flattenFrom (cells : List Cell) (acc : Vec) :
    cells.foldl (fun acc c => acc ++ c.flatten) acc =
      acc ++ cells.foldl (fun acc c => acc ++ c.flatten) #[] := by
  apply Array.toList_inj.mp
  rw [Array.toList_append, Layout.toList_foldl_append, Layout.toList_foldl_append]
  simp

theorem size_flatten_of_fits (h : List.Forall₂ Cell.Fits cells cells') :
    (cells.foldl (fun acc c => acc ++ c.flatten) (#[] : Vec)).size = countOf cells' := by
  induction h with
  | nil => rfl
  | @cons c c' rest rest' hc _ ih =>
    rw [List.foldl_cons, flattenFrom, Array.size_append, ih, Array.empty_append, hc.shaped.size_flatten,
      hc.parameterCount]
    rfl

theorem loadLayers_flatten (h : List.Forall₂ Cell.Fits cells cells') :
    loadLayers cells' (cells.foldl (fun acc c => acc ++ c.flatten) #[]) = .ok cells := by
  induction h with
  | nil => rfl
  | @cons c c' rest rest' hc _ ih =>
    have hsize : c.flatten.size = c'.parameterCount := by rw [hc.shaped.size_flatten, hc.parameterCount]
    have hrest (ys : Vec) : (c.flatten ++ ys).extract c.flatten.size (c.flatten ++ ys).size = ys := by
      rw [Array.size_append, Array.extract_append_right, Array.extract_size]
    rw [List.foldl_cons, flattenFrom, Array.empty_append, loadLayers, ← hsize, hrest, ih,
      Array.extract_append_left, Array.extract_size,
      hc.shaped.load_flatten hc.inputSize.symm hc.hiddenSize.symm]
    rfl

/-- Loading flattened parameters gives the controller back. -/
theorem Fits.load_flatten (h : s.Fits shared) : shared.load s.flatten = .ok s := by
  have hsize : s.flatten.size = shared.parameterCount := size_flatten_of_fits h.layers
  unfold load
  dsimp only
  rw [if_neg fun hne => hne hsize, Stack.flatten, loadLayers_flatten h.layers, ← h.inputSize]
  rfl

theorem Fits.eq_of_flatten (h : s.Fits shared) (h' : s'.Fits shared) (heq : s.flatten = s'.flatten) :
    s = s' := by
  have hload := h.load_flatten
  rw [heq, h'.load_flatten] at hload
  exact (Except.ok.inj hload).symm

theorem fits_of_loadLayers (h₀ : List.Forall₂ Cell.Fits cells' cells') {values : Vec}
    (h : loadLayers cells' values = .ok cells) : List.Forall₂ Cell.Fits cells cells' := by
  induction cells' generalizing cells values with
  | nil =>
    cases h
    exact .nil
  | cons c' rest' ih =>
    cases h₀ with
    | cons hc hrest =>
    obtain ⟨c, hload, h⟩ := ok_of_bind h
    obtain ⟨rest, htail, h⟩ := ok_of_bind h
    cases h
    obtain ⟨hshaped, hi, hh⟩ := Cell.shaped_of_load hc.shaped.fits hload
    exact .cons ⟨hshaped, hi, hh⟩ (ih hrest htail)

theorem fits_of_load (h₀ : shared.Fits shared) {values : Vec} (h : shared.load values = .ok s) :
    s.Fits shared := by
  unfold load at h
  dsimp only at h
  split at h
  · cases h
  · obtain ⟨layers, hlayers, h⟩ := ok_of_bind h
    cases h
    exact ⟨rfl, fits_of_loadLayers h₀.layers hlayers⟩

end Stack

end NpcMind
