import NpcMind.Proofs.Soundness

/-!
# Numbers that stay finite

Where numbers that are not finite are repaired, a step through the controller cannot fail, whatever it takes
in: each layer gives out as many values as the next one expects, and all of them are finite. Nor can the
gradient of the last layer.
-/

namespace NpcMind

open StatePools Outcome

/-! ### Repairs -/

/-- What is neither a NaN nor an infinity is finite. -/
theorem Single.isFinite_of_not {x : Float32} (hnan : ¬ x.isNaN = true) (hinf : ¬ x.isInf = true) :
    x.isFinite = true := by
  have hnan : ¬ x.toModel.unpack.isNaN = true := hnan
  have hinf : ¬ x.toModel.unpack.isInf = true := hinf
  show x.toModel.unpack.isFinite = true
  generalize x.toModel.unpack = u at hnan hinf ⊢
  cases u with
  | notANumber => exact absurd rfl hnan
  | infinity s => exact absurd rfl hinf
  | zero s => rfl
  | finite s m e hm => rfl

namespace Guard

theorem isFinite_repair (x : Float32) : (repair x).isFinite = true := by
  unfold repair
  split
  · decide
  · next hnan =>
    split
    · split <;> decide
    · next hinf => exact Single.isFinite_of_not hnan hinf

theorem check_sanitize (site : String) (xs : Vec) :
    ∃ n ys, sanitize.check site xs = .ok (n, ys) ∧ Vec.isFinite ys = true := by
  unfold check
  split
  · next h => exact ⟨0, xs, rfl, h⟩
  · refine ⟨defects xs, xs.map repair, rfl, Array.all_eq_true_iff_forall_mem.mpr fun y hy => ?_⟩
    obtain ⟨x, -, rfl⟩ := Array.mem_map.mp hy
    exact isFinite_repair x

end Guard

theorem Vec.isFinite_zeros (n : Nat) : Vec.isFinite (Vec.zeros n) = true := by
  refine Array.all_eq_true_iff_forall_mem.mpr fun x hx => ?_
  rw [(Array.mem_replicate.mp hx).2]
  decide

namespace CellState

/-- What is carried on to the next step. -/
def carried (s : CellState) : List Float32 := s.hidden.toList ++ s.cell.toList

theorem isFinite_iff {s : CellState} : s.isFinite = true ↔ ∀ x ∈ s.carried, x.isFinite = true := by
  simp only [isFinite, carried, Vec.isFinite, Bool.and_eq_true, Array.all_eq_true_iff_forall_mem,
    List.mem_append, Array.mem_toList_iff, or_imp, forall_and]

theorem isFinite_reset (s : CellState) : s.reset.isFinite = true := by
  simp only [isFinite, reset, Vec.isFinite_zeros, Bool.and_self]

theorem isFinite_initial (inputSize hiddenSize : Nat) : (initial inputSize hiddenSize).isFinite = true := by
  simp only [isFinite, initial, Vec.isFinite_zeros, Bool.and_self]

theorem map_size_hidden {sizes : List Nat} {states : List CellState} (h : List.Forall₂ HasSize sizes states) :
    states.map (Array.size ∘ CellState.hidden) = sizes := by
  induction h with
  | nil => rfl
  | cons h _ ih => rw [List.map_cons, ih, Function.comp_apply, h.hidden]

end CellState

/-! ### Steps through layers -/

namespace Cell

variable {c : Cell} {b : Backend} {s : CellState} {input : Vec}

theorem step_sanitize (b : Backend) (s : CellState) (h : c.inputSize = input.size) :
    ∃ n s', c.step b .sanitize s input = .ok (n, s') ∧ s'.HasSize c.hiddenSize ∧ s'.isFinite = true := by
  suffices ∃ n s', c.step b .sanitize s input = .ok (n, s') ∧ s'.isFinite = true by
    obtain ⟨n, s', hstep, hfinite⟩ := this
    exact ⟨n, s', hstep, hasSize_step hstep, hfinite⟩
  unfold step
  rw [h]
  simp only [expectSize_ok, bind, Except.bind]
  generalize (Array.range c.hiddenSize).map _ = cell
  generalize (Array.range c.hiddenSize).map _ = hidden
  obtain ⟨n, cell', hcell, hcells⟩ := Guard.check_sanitize "controller cell" cell
  obtain ⟨m, hidden', hhidden, hhiddens⟩ := Guard.check_sanitize "controller hidden" hidden
  simp only [hcell, hhidden]
  exact ⟨_, _, rfl, by simp only [CellState.isFinite, hcells, hhiddens, Bool.and_self]⟩

theorem room_of_allocate {inputSize hiddenSize : Nat} {seed : UInt64} {forgetBias : Float32}
    (h : allocate inputSize hiddenSize seed forgetBias = .ok c) :
    c.inputSize = inputSize ∧ c.hiddenSize = hiddenSize ∧ hiddenSize < UInt64.size / 4 := by
  unfold allocate at h
  obtain ⟨_, -, h⟩ := ok_of_bind h
  obtain ⟨_, hroom, h⟩ := ok_of_bind h
  have hsmall := lt_of_requireRoom hroom
  have hcell : ofSeed inputSize hiddenSize seed forgetBias = c := by
    dsimp only at h
    split at h
    · obtain ⟨-, -, h⟩ := ok_of_bind h
      exact Except.ok.inj h
    · exact Except.ok.inj h
  subst hcell
  refine ⟨rfl, rfl, ?_⟩
  have hsize : 4 ≤ UInt64.size := by decide
  unfold entryBytes at hsmall
  omega

end Cell

namespace Stack

variable {cells cells' : List Cell} {s shared : Stack} {layers : List (SlotPool CellState)}
  {handles : List Handle} {states : List CellState} {p : StatePools}

/-- Every layer takes in as many values as the one before it gives out, and what it takes in can be
addressed together with its hidden values. -/
inductive Chained : Nat → List Cell → Prop
  | nil (n : Nat) : Chained n []
  | cons {c : Cell} {rest : List Cell} : c.inputSize + c.hiddenSize < UInt64.size →
      Chained c.hiddenSize rest → Chained c.inputSize (c :: rest)

theorem Chained.of_fits {n : Nat} (h : Chained n cells') (hf : List.Forall₂ Cell.Fits cells cells') :
    Chained n cells := by
  induction h generalizing cells with
  | nil n =>
    cases hf
    exact .nil n
  | cons hroom _ ih =>
    obtain ⟨c, rest, hc, hrest, rfl⟩ := List.forall₂_cons_right_iff.mp hf
    rw [← hc.inputSize, ← hc.hiddenSize] at hroom
    rw [← hc.inputSize]
    refine .cons hroom ?_
    rw [hc.hiddenSize]
    exact ih hrest

theorem Chained.room {n : Nat} (h : Chained n cells) :
    ∀ c ∈ cells, c.inputSize + c.hiddenSize < UInt64.size := by
  induction h with
  | nil => exact fun c hc => nomatch hc
  | cons hroom _ ih => exact List.forall_mem_cons.mpr ⟨hroom, ih⟩

theorem chained_layersFrom {c : Config.Controller} {inputSize number : Nat} {sizes : List Nat}
    (hroom : inputSize < UInt64.size / 2) (h : layersFrom c inputSize number sizes = .ok cells) :
    Chained inputSize cells := by
  induction sizes generalizing inputSize number cells with
  | nil =>
    cases h
    exact .nil _
  | cons hiddenSize rest ih =>
    obtain ⟨cell, hcell, h⟩ := ok_of_bind h
    obtain ⟨tail, htail, h⟩ := ok_of_bind h
    cases h
    obtain ⟨hinput, hhidden, hsmall⟩ := Cell.room_of_allocate hcell
    have hrest := ih (by omega) htail
    rw [← hinput] at hroom ⊢
    rw [← hhidden] at hrest hsmall
    exact .cons (by omega) hrest

theorem chained_ofConfig {inputSize : Nat} {c : Config.Controller} (hroom : inputSize < UInt64.size / 2)
    (h : ofConfig inputSize c = .ok s) : Chained inputSize s.layers := by
  unfold ofConfig at h
  dsimp only at h
  split at h
  · cases h
  · obtain ⟨layers, hlayers, h⟩ := ok_of_bind h
    cases h
    exact chained_layersFrom hroom hlayers

/-- **A step through layers that fit together cannot fail**, and all that is carried on is finite. -/
theorem advance_sanitize (b : Backend) (hv : Sees layers handles states) (hn : cells.length = handles.length)
    {input : Vec} (hc : Chained input.size cells) :
    ∃ n outs next, advance b .sanitize cells layers handles input = (.ok (n, outs), putAll layers handles next) ∧
      List.Forall₂ CellState.HasSize (cells.map Cell.hiddenSize) next ∧
      (∀ s ∈ next, s.isFinite = true) ∧ outs = next.map CellState.hidden := by
  induction hv generalizing cells input with
  | nil pools =>
    obtain rfl := List.length_eq_zero_iff.mp hn
    exact ⟨0, [], [], by simp [advance], .nil, by simp, rfl⟩
  | @cons pool pools h handles s states hg _ ih =>
    obtain ⟨c, cells, rfl, hn'⟩ := List.length_eq_succ_iff.mp hn
    generalize hsize : input.size = n at hc
    cases hc with
    | cons _ hrest =>
    obtain ⟨repairs, t, hstep, ht, hfinite⟩ := c.step_sanitize b s hsize.symm
    rw [← ht.hidden] at hrest
    obtain ⟨more, outs, next, hadvance, hnext, hall, houts⟩ := ih hn' hrest
    refine ⟨repairs + more, t.hidden :: outs, t :: next, ?_, .cons ht hnext, ?_, ?_⟩
    · simp only [advance, SlotPool.get_eq_ok.mpr hg, bind, Except.bind, hstep, hadvance, putAll]
    · exact List.forall_mem_cons.mpr ⟨hfinite, hall⟩
    · rw [List.map_cons, houts]

theorem size_foldl_append (outs : List Vec) (acc : Vec) :
    (outs.foldl (· ++ ·) acc).size = acc.size + (outs.map Array.size).foldr (· + ·) 0 := by
  induction outs generalizing acc with
  | nil => rfl
  | cons out outs ih => rw [List.foldl_cons, ih, Array.size_append, List.map_cons, List.foldr_cons, Nat.add_assoc]

theorem size_readOut {mode : OutputMode} {outs : List Vec} (h : outs.map Array.size = s.hiddenSizes) :
    (readOut mode outs).size = s.outputSize mode := by
  cases mode with
  | finalLayer =>
    rw [outputSize, finalSize_eq, ← h, List.getLast?_map, readOut]
    cases outs.getLast? <;> rfl
  | allLayers =>
    rw [outputSize, ← h, readOut, size_foldl_append]
    exact Nat.zero_add _

theorem mem_foldl_append {x : Float32} {outs : List Vec} {acc : Vec} (h : x ∈ outs.foldl (· ++ ·) acc) :
    x ∈ acc ∨ ∃ out ∈ outs, x ∈ out := by
  induction outs generalizing acc with
  | nil => exact .inl h
  | cons out outs ih =>
    rcases ih h with h | ⟨out', hout', h⟩
    · exact (Array.mem_append.mp h).imp_right fun h => ⟨out, List.mem_cons_self, h⟩
    · exact .inr ⟨out', List.mem_cons_of_mem out hout', h⟩

/-- What a stack gives out is among what its layers give out. -/
theorem mem_readOut {mode : OutputMode} {outs : List Vec} {x : Float32} (h : x ∈ readOut mode outs) :
    ∃ out ∈ outs, x ∈ out := by
  cases mode with
  | finalLayer =>
    unfold readOut at h
    cases hlast : outs.getLast? with
    | none =>
      rw [hlast] at h
      exact absurd h (Array.not_mem_empty x)
    | some out =>
      rw [hlast] at h
      exact ⟨out, List.mem_of_getLast? hlast, h⟩
  | allLayers => exact (mem_foldl_append h).resolve_left (Array.not_mem_empty x)

theorem finalSize_le_outputSize (s : Stack) (mode : OutputMode) : s.finalSize ≤ s.outputSize mode := by
  cases mode with
  | finalLayer => exact Nat.le_refl _
  | allLayers =>
    rw [outputSize, finalSize_eq]
    induction s.hiddenSizes with
    | nil => exact Nat.le_refl _
    | cons n rest ih =>
      cases rest with
      | nil => simp
      | cons m rest =>
        rw [List.getLast?_cons_cons, List.foldr_cons]
        exact Nat.le_trans ih (Nat.le_add_left _ _)

theorem forward_sanitize (b : Backend) (hv : Sees p.layers handles states)
    (hn : s.layers.length = handles.length) {input : Vec} (hc : Chained input.size s.layers)
    {mode : OutputMode} {size : Nat} (hsize : size = s.outputSize mode) :
    ∃ n out next, s.forward b .sanitize p handles input mode size = (.ok (n, out), p.put handles next) ∧
      List.Forall₂ CellState.HasSize s.hiddenSizes next ∧ (∀ t ∈ next, t.isFinite = true) ∧
      out.size = s.outputSize mode ∧ ∀ x ∈ out, x.isFinite = true := by
  obtain ⟨n, outs, next, hadvance, hnext, hfinite, rfl⟩ := advance_sanitize b hv hn hc
  refine ⟨n, readOut mode (next.map CellState.hidden), next, ?_, hnext, hfinite, size_readOut ?_, fun x hx => ?_⟩
  · simp only [forward, hn, hsize, expectSize_ok, bind, Except.bind, hadvance]
    rfl
  · rw [List.map_map]
    exact CellState.map_size_hidden hnext
  · obtain ⟨out, hout, hx⟩ := mem_readOut hx
    obtain ⟨t, ht, rfl⟩ := List.mem_map.mp hout
    have hcarried : x ∈ t.carried := List.mem_append_left _ (Array.mem_toList_iff.mpr hx)
    exact CellState.isFinite_iff.mp (hfinite t ht) x hcarried

theorem shaped_of_fits (h : List.Forall₂ Cell.Fits cells cells') : ∀ c ∈ cells, c.Shaped := by
  induction h with
  | nil => exact fun c hc => nomatch hc
  | cons hc _ ih => exact List.forall_mem_cons.mpr ⟨hc.shaped, ih⟩

/-- The product inside a step accepts whatever the layer takes in. -/
theorem matvec_of_chained {n : Nat} (h : Chained n s.layers) (hs : s.Fits shared) {c : Cell}
    (hc : c ∈ s.layers) (b : Backend) {intake : Vec} (hi : intake.size = c.inputSize + c.hiddenSize) :
    Kernel.matvec b c.weights intake (4 * c.hiddenSize) = .ok (Kernel.apply b c.weights intake) := by
  have hshaped := shaped_of_fits hs.layers c hc
  have hcols : c.weights.cols = intake.size := by
    rw [hshaped.cols, hi]
    exact Nat.mod_eq_of_lt (h.room c hc)
  have hwhole : c.weights.isWhole = true := by
    have hstride : c.weights.stride = paddedStride c.intakeSize := congrArg paddedStride hshaped.cols
    simp only [Tensor.isWhole, hstride, hshaped.cols, hshaped.rows, hshaped.fits, hshaped.size, decide_true,
      Bool.and_self, Bool.or_true]
  simp only [Kernel.matvec, hcols, hshaped.rows, expectSize_ok, bind, Except.bind, hwhole, if_true]
  rfl

theorem finalGradient_ok (hv : Sees p.layers handles states) (hn : s.layers.length = handles.length)
    (hne : s.layers ≠ []) (dHidden : Vec) : ∃ gradient, s.finalGradient p handles dHidden = .ok gradient := by
  have hhandles : handles ≠ [] := by
    rintro rfl
    exact hne (List.length_eq_zero_iff.mp hn)
  have hc := List.getLast?_eq_some_getLast hne
  have hh := List.getLast?_eq_some_getLast hhandles
  obtain ⟨state, -, hget⟩ := get_last hv hh
  simp only [finalGradient, hn, expectSize_ok, bind, Except.bind, hc, hh, hget]
  exact ⟨_, rfl⟩

end Stack

end NpcMind
