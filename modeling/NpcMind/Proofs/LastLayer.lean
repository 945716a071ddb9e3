import NpcMind.Proofs.Chronicles
import NpcMind.Proofs.FlatOrder
import NpcMind.Proofs.Products
import NpcMind.Proofs.RoundTrip
import NpcMind.Proofs.Sharing
import NpcMind.Proofs.TaskList

/-!
# What adapts

A reward is traced back through the last layer of a controller and no further. So every derivative that is
sampled or added to a parameter has its place in the last layer, from `Stack.finalOffset` on. Sums of squares are
stored under the 32-bit keys of their places, so what adapting reaches are these places and their keys:
`Stack.Reaches`. Every other sum of squares stays zero, no task holds on to another parameter, and every other
parameter keeps the value that the configuration gives it, whatever an agent goes through. Up to `2 ^ 32` parameters
are reached from `Stack.finalOffset` on and nowhere else.
-/

namespace NpcMind

open StatePools Outcome

/-! ## Derivatives -/

namespace Cell

variable {c : Cell} {s : CellState} {dHidden : Vec} {u : Nat × Float32}

/-- The parameters of a row with a derivative: unless it is zero, the bias and all weights of values that are not. -/
theorem mem_rowGradient {intake : Vec} {row : Nat} {g : Float32} :
    u ∈ c.rowGradient intake row g ↔ (g == 0) = false ∧ (u = (c.weightCount + row, g) ∨
      ∃ col x, intake[col]? = some x ∧ (x == 0) = false ∧ u = (row * c.intakeSize + col, g * x)) := by
  unfold rowGradient
  cases hg : g == 0 with
  | true => simp
  | false =>
    rw [if_neg Bool.false_ne_true, List.mem_append, List.mem_singleton, or_comm, List.mem_filterMap]
    refine (and_iff_right rfl).symm.trans (and_congr_right fun _ => or_congr_right ⟨?_, ?_⟩)
    · rintro ⟨⟨x, col⟩, hx, hu⟩
      rw [List.mk_mem_zipIdx_iff_getElem?, Array.getElem?_toList] at hx
      obtain ⟨hzero, hu⟩ := Option.ite_none_right_eq_some.mp hu
      exact ⟨col, x, hx, Bool.not_eq_true' _ ▸ hzero, (Option.some.inj hu).symm⟩
    · rintro ⟨col, x, hx, hzero, rfl⟩
      refine ⟨(x, col), ?_, ?_⟩
      · rw [List.mk_mem_zipIdx_iff_getElem?, Array.getElem?_toList, hx]
      · dsimp only
        rw [bne, hzero]
        rfl

theorem mem_gradient : u ∈ c.gradient s dHidden ↔ ∃ k dh i g, k < c.hiddenSize ∧ dHidden[k]? = some dh ∧
    (dh == 0) = false ∧ (gateDerivatives s k dh)[i]? = some g ∧
      u ∈ c.rowGradient s.intake (i * c.hiddenSize + k) g := by
  unfold gradient
  rw [List.mem_flatMap]
  constructor
  · rintro ⟨⟨dh, k⟩, hdh, hu⟩
    dsimp only at hu
    rw [List.mk_mem_zipIdx_iff_getElem?, List.getElem?_take, Array.getElem?_toList,
      Option.ite_none_right_eq_some] at hdh
    cases hzero : dh == 0 with
    | true =>
      rw [hzero] at hu
      cases hu
    | false =>
      rw [hzero, if_neg Bool.false_ne_true] at hu
      obtain ⟨⟨g, i⟩, hg, hu⟩ := List.mem_flatMap.mp hu
      exact ⟨k, dh, i, g, hdh.1, hdh.2, hzero, List.mk_mem_zipIdx_iff_getElem?.mp hg, hu⟩
  · rintro ⟨k, dh, i, g, hk, hdh, hzero, hg, hu⟩
    refine ⟨(dh, k), ?_, ?_⟩
    · rw [List.mk_mem_zipIdx_iff_getElem?, List.getElem?_take_of_lt hk, Array.getElem?_toList, hdh]
    · dsimp only
      rw [hzero, if_neg Bool.false_ne_true]
      exact List.mem_flatMap.mpr ⟨(g, i), List.mk_mem_zipIdx_iff_getElem?.mpr hg, hu⟩

end Cell

namespace Stack

variable {s shared : Stack} {cells : List Cell} {inputSize : Nat} {sizes : List Nat}

/-! ### The place of the last layer -/

theorem parameterCount_eq {c : Cell} (hc : s.layers.getLast? = some c) :
    s.parameterCount = s.finalOffset + c.parameterCount := by
  have hsum (front : List Cell) : countOf (front ++ [c]) = countOf front + c.parameterCount := by
    induction front with
    | nil => exact (Nat.add_zero _).trans (Nat.zero_add _).symm
    | cons d rest ih => rw [List.cons_append, countOf_cons, countOf_cons, ih, Nat.add_assoc]
  rw [parameterCount, ← List.dropLast_append_getLast? c hc, hsum]
  rfl

theorem finalOffset_le (s : Stack) : s.finalOffset ≤ s.parameterCount := by
  cases hc : s.layers.getLast? with
  | none =>
    rw [List.getLast?_eq_none_iff] at hc
    simp [finalOffset, parameterCount, hc]
  | some c =>
    rw [parameterCount_eq hc]
    exact Nat.le_add_right _ _

theorem length_offsetsFrom (start : Nat) (cells : List Cell) : (offsetsFrom start cells).length = cells.length := by
  induction cells generalizing start with
  | nil => rfl
  | cons c rest ih => rw [offsetsFrom, List.length_cons, List.length_cons, ih]

theorem le_of_mem_offsetsFrom {start place : Nat} (h : place ∈ offsetsFrom start cells) :
    place ≤ start + countOf cells.dropLast := by
  induction cells generalizing start with
  | nil => cases h
  | cons c rest ih =>
    rcases List.mem_cons.mp h with rfl | h
    · exact Nat.le_add_right place _
    · have hne : rest ≠ [] := by
        rintro rfl
        cases h
      have := ih h
      rw [List.dropLast_cons_of_ne_nil hne, countOf_cons]
      omega

/-- What is not in front of the last layer falls into it, even past its end. -/
theorem locate_last {i : Nat} (hi : countOf cells.dropLast ≤ i) : (locate cells i).1 = cells.length - 1 := by
  have hall : (offsetsFrom 0 cells).takeWhile (· ≤ i) = offsetsFrom 0 cells := by
    refine List.takeWhile_eq_self_iff.mpr fun place hplace => decide_eq_true ?_
    have := le_of_mem_offsetsFrom hplace
    omega
  show ((offsetsFrom 0 cells).takeWhile (· ≤ i)).length - 1 = cells.length - 1
  rw [hall, length_offsetsFrom]

theorem layers_addTo {i : Nat} (hi : s.finalOffset ≤ i) (delta : Float32) :
    (s.addTo i delta).layers.dropLast = s.layers.dropLast := by
  show (s.layers.modify (locate s.layers i).1 fun c => c.addTo (locate s.layers i).2 delta).dropLast = _
  rw [locate_last hi, List.dropLast_eq_take, List.dropLast_eq_take, List.length_modify]
  refine List.ext_getElem? fun j => ?_
  rw [List.getElem?_take, List.getElem?_take]
  split
  · next hj =>
    rw [List.getElem?_modify_ne]
    omega
  · rfl

theorem of_finalGradient {p : StatePools} {handles : List Handle} {dHidden : Vec}
    {gradient : List (Nat × Float32)} (h : s.finalGradient p handles dHidden = .ok gradient) :
    ∃ cell handle state, s.layers.getLast? = some cell ∧ handles.getLast? = some handle ∧
      p.get (handles.length - 1) handle = .ok state ∧
      gradient = (cell.gradient state dHidden).map fun u => (s.finalOffset + u.1, u.2) := by
  unfold finalGradient at h
  obtain ⟨_, hsize, h⟩ := ok_of_bind h
  split at h
  · next cell handle hcell hhandle =>
    obtain ⟨state, hstate, h⟩ := ok_of_bind h
    cases h
    rw [eq_of_expectSize hsize] at hstate
    exact ⟨cell, handle, state, hcell, hhandle, hstate, rfl⟩
  · cases h

theorem finalGradient_place {p : StatePools} {handles : List Handle} {dHidden : Vec}
    {gradient : List (Nat × Float32)} (h : s.finalGradient p handles dHidden = .ok gradient) :
    ∀ u ∈ gradient, s.finalOffset ≤ u.1 := by
  obtain ⟨_, _, _, -, -, -, rfl⟩ := of_finalGradient h
  intro u hu
  obtain ⟨v, -, rfl⟩ := List.mem_map.mp hu
  exact Nat.le_add_right _ _

/-- In the flat order, the layers in front of the last one come first. -/
theorem getElem?_flatten_front (h : s.Fits shared) {i : Nat} (hi : i < s.finalOffset) :
    s.flatten[i]? = (s.layers.dropLast.foldl (fun acc c => acc ++ c.flatten) (#[] : Vec))[i]? := by
  have hne : s.layers ≠ [] := by
    intro hnil
    rw [finalOffset, hnil] at hi
    exact absurd hi (Nat.not_lt_zero i)
  have hfront : List.Forall₂ Cell.Fits s.layers.dropLast s.layers.dropLast :=
    List.forall₂_same.mpr fun c hc => List.forall₂_same.mp h.self.layers c (List.mem_of_mem_dropLast hc)
  have hsize := size_flatten_of_fits hfront
  have hflatten : s.flatten = s.layers.dropLast.foldl (fun acc c => acc ++ c.flatten) (#[] : Vec) ++
      (s.layers.getLast hne).flatten := by
    rw [flatten]
    conv_lhs => rw [← List.dropLast_append_getLast hne]
    rw [List.foldl_append, List.foldl_cons, List.foldl_nil]
  rw [hflatten, Array.getElem?_append_left]
  rw [hsize]
  exact hi

theorem Fits.finalOffset (h : s.Fits shared) : s.finalOffset = shared.finalOffset := by
  rw [Stack.finalOffset, Stack.finalOffset, List.dropLast_eq_take, List.dropLast_eq_take, h.layers.length_eq]
  exact countOf_of_fits (List.forall₂_take _ h.layers)

/-- Adding to a parameter changes none in front of the last layer but itself. -/
theorem OfShape.getElem?_flatten_addTo (h : s.OfShape inputSize sizes) {i j : Nat} (hj : j < s.finalOffset)
    (hij : j ≠ i) (delta : Float32) : (s.addTo i delta).flatten[j]? = s.flatten[j]? := by
  have hadded := (h.addTo i delta).fits
  by_cases hi : s.finalOffset ≤ i
  · have hlayers := layers_addTo hi delta
    have hfront : j < (s.addTo i delta).finalOffset := (h.fits.addTo i delta).finalOffset.symm ▸ hj
    rw [getElem?_flatten_front hadded hfront, getElem?_flatten_front h.fits hj, hlayers]
  · have hsize : i < s.flatten.size := by
      have hle := s.finalOffset_le
      rw [h.size_flatten]
      omega
    rw [h.flatten_addTo hsize, Array.getElem?_set_ne hsize hij.symm]

/-- **Updates change no parameter in front of the last layer but those that they are for.** -/
theorem OfShape.getElem?_flatten_addAll (h : s.OfShape inputSize sizes) {updates : List (Nat × Float32)} {j : Nat}
    (hj : j < s.finalOffset) (hu : ∀ u ∈ updates, j ≠ u.1) :
    (updates.foldl (fun s (i, delta) => s.addTo i delta) s).flatten[j]? = s.flatten[j]? := by
  induction updates generalizing s with
  | nil => rfl
  | cons u rest ih =>
    have hfront : j < (s.addTo u.1 u.2).finalOffset := (h.fits.addTo u.1 u.2).finalOffset.symm ▸ hj
    refine (ih (h.addTo u.1 u.2) hfront fun v hv => hu v (List.mem_cons_of_mem u hv)).trans ?_
    exact h.getElem?_flatten_addTo hj (hu u List.mem_cons_self) u.2

/-! ### What adapting reaches -/

/-- Place `i` of the flat order is in the last layer, or it is the key of a place that is. -/
def Reaches (s : Stack) (i : Nat) : Prop :=
  s.finalOffset ≤ i ∨ ∃ j < s.parameterCount, s.finalOffset ≤ j ∧ i = Sparse.key j

/-- Up to `2 ^ 32` parameters, every place is its own key. -/
theorem reaches_iff {i : Nat} (h : s.parameterCount ≤ UInt32.size) : s.Reaches i ↔ s.finalOffset ≤ i := by
  refine ⟨?_, .inl⟩
  rintro (hi | ⟨j, hj, hplace, rfl⟩)
  · exact hi
  · rwa [Sparse.key_of_lt (Nat.lt_of_lt_of_le hj h)]

theorem Reaches.key {i : Nat} (h : s.Reaches i) (hi : i < s.parameterCount) : s.Reaches (Sparse.key i) := by
  obtain hplace | ⟨j, hj, hplace, rfl⟩ := h
  · exact .inr ⟨i, hi, hplace, rfl⟩
  · exact .inr ⟨j, hj, hplace, Nat.mod_mod _ _⟩

end Stack

/-! ## Samples and tasks -/

theorem Vec.eq_zero_of_mem_zeros {n : Nat} : ∀ x ∈ zeros n, x = 0 := fun _ hx => eq_zero_of_mem hx.val

theorem Vec.getD_eq_zero {v : Vec} (h : ∀ x ∈ v, x = 0) (k : Nat) : v.getD k 0 = 0 := by
  rw [Array.getD_eq_getD_getElem?]
  cases hk : v[k]? with
  | none => rfl
  | some x => exact h x (Array.mem_of_getElem? hk)

namespace Accumulator

variable {k k' : Accumulator} {reached : Nat → Prop}

/-- All sums are zero but those of the places in `reached`. -/
def ClearOff (reached : Nat → Prop) (k : Accumulator) : Prop := ∀ i, ¬ reached i → k.sums.getD i 0 = 0

theorem clearOff_ofCount (reached : Nat → Prop) (count : Nat) : (ofCount count).ClearOff reached :=
  fun i _ => Vec.getD_eq_zero Vec.eq_zero_of_mem_zeros i

theorem ClearOff.add (h : k.ClearOff reached) {i : Nat} (hi : reached i) (g : Float32) :
    (k.add i g).ClearOff reached := by
  unfold Accumulator.add
  split
  · intro j hj
    have hij : i ≠ j := fun heq => hj (heq ▸ hi)
    show (k.sums.modify i (· + g * g)).getD j 0 = 0
    rw [Array.getD_eq_getD_getElem?, Array.getElem?_modify, if_neg hij, ← Array.getD_eq_getD_getElem?]
    exact h j hj
  · exact h

theorem ClearOff.addAll (h : k.ClearOff reached) {gradient : List (Nat × Float32)}
    (hg : ∀ u ∈ gradient, reached u.1) : (k.addAll gradient).ClearOff reached := by
  unfold Accumulator.addAll
  induction gradient generalizing k with
  | nil => exact h
  | cons u rest ih =>
    exact ih (h.add (hg u List.mem_cons_self) u.2) fun v hv => hg v (List.mem_cons_of_mem u hv)

/-- Whatever is not zero is a sum that was reached. -/
theorem ClearOff.place (h : k.ClearOff reached) {x : Float32} {i : Nat} (hx : k.sums[i]? = some x) (hne : x ≠ 0) :
    reached i ∧ i < k.parameterCount := by
  refine ⟨by_contra fun hi => hne ?_, (Array.getElem?_eq_some_iff.mp hx).1⟩
  rw [← h i hi, Array.getD_eq_getD_getElem?, hx]
  rfl

/-- **No entry of a table stems from a sum that is zero.** -/
theorem ClearOff.finish (h : k.ClearOff reached) (hkey : ∀ i < k.parameterCount, reached i → reached (Sparse.key i))
    {minFisher : Float32} (hm : 0 ≤ minFisher) (maxDensity : Float32) :
    ∀ e ∈ (k.finish minFisher maxDensity).entries, reached e.1 := by
  intro e he
  obtain ⟨-, i, x, hx, habove, rfl⟩ := of_mem_finish he
  have hne : x ≠ 0 := by
    rintro rfl
    exact (Single.void_zero.mul_right _).not_gt hm habove
  obtain ⟨hi, hlt⟩ := h.place hx hne
  exact hkey i hlt hi

theorem clear_foldl {entries : List (Nat × Float32)} (he : ∀ e ∈ entries, reached e.1) {xs : Vec}
    (hxs : ∀ i, ¬ reached i → xs.getD i 0 = 0) :
    ∀ i, ¬ reached i → (entries.foldl (fun sums e => sums.setIfInBounds e.1 e.2) xs).getD i 0 = 0 := by
  induction entries generalizing xs with
  | nil => exact hxs
  | cons e rest ih =>
    refine ih (fun f hf => he f (List.mem_cons_of_mem e hf)) fun i hi => ?_
    have hne : e.1 ≠ i := fun heq => hi (heq ▸ he e List.mem_cons_self)
    rw [Array.getD_eq_getD_getElem?, Array.getElem?_setIfInBounds_ne hne, ← Array.getD_eq_getD_getElem?]
    exact hxs i hi

/-- A sum of zero is not saved, so it is put back as one. -/
theorem ClearOff.restore (h : k.ClearOff reached) (hkey : ∀ i < k.parameterCount, reached i → reached (Sparse.key i))
    {k₀ : Accumulator} (hr : k₀.restore k.toRecord = .ok k') : k'.ClearOff reached := by
  rw [eq_ofEntries hr]
  refine clear_foldl (fun e he => ?_) (clearOff_ofCount reached k₀.parameterCount)
  obtain ⟨i, hx, hne, hplace⟩ := of_mem_toRecord he
  obtain ⟨hi, hlt⟩ := h.place hx fun heq => absurd (heq ▸ hne) (by decide)
  rw [hplace]
  exact hkey i hlt hi

end Accumulator

namespace Consolidator

variable {k k' : Consolidator} {reached : Nat → Prop}

/-- The tasks hold on to parameters at places in `reached` only. -/
def HoldsWithin (reached : Nat → Prop) (k : Consolidator) : Prop :=
  ∀ t ∈ k.tasks, ∀ e ∈ t.fisher.entries, reached e.1

theorem tasks_ofConfig {count : Nat} {c : Config.Consolidation} (h : ofConfig count c = .ok k) : k.tasks = [] := by
  obtain ⟨_, -, h⟩ := ok_of_bind h
  obtain ⟨_, -, h⟩ := ok_of_bind h
  cases h
  rfl

theorem HoldsWithin.consolidate (h : k.HoldsWithin reached) {id : Uuid} {name : String} {optimal : Vec}
    {fisher : FisherTable Float32} (hf : ∀ e ∈ fisher.entries, reached e.1) {importance : Float32} {tick : UInt64}
    {pruned : Option (Task Float32)}
    (hk : k.consolidate id name optimal fisher importance tick = .ok (pruned, k')) : k'.HoldsWithin reached := by
  obtain ⟨-, rfl⟩ := eq_of_consolidate hk
  intro t ht
  rcases List.mem_append.mp ht with ht | ht
  · refine h t ?_
    unfold makeRoom at ht
    split at ht
    · exact ht
    · split at ht
      · exact ht
      · exact List.mem_of_mem_eraseIdx ht
  · obtain rfl := List.mem_singleton.mp ht
    exact hf

theorem HoldsWithin.penaltyGradient (h : k.HoldsWithin reached) {current : Vec} {gradient : List (Nat × Float32)}
    (hg : k.penaltyGradient current = .ok gradient) : ∀ u ∈ gradient, reached u.1 := by
  unfold Consolidator.penaltyGradient at hg
  split at hg
  · cases hg
    intro u hu
    obtain ⟨t, ht, hu⟩ := List.mem_flatMap.mp hu
    obtain ⟨e, he, rfl⟩ := List.mem_map.mp hu
    exact h t ht e he
  · cases hg

end Consolidator

/-! ## Agents -/

namespace Agent

variable {c : Config} {shared stack : Stack} {ds : List Decision} {a b d : Agent} {p q : StatePools}
  {reward : Float32} {report : PenaltyReport Float32}

/-- The controller has the parameters of `shared` at all places that adapting does not reach, and nothing that the
agent has sampled or consolidated is about these. -/
structure Founded (shared : Stack) (a : Agent) : Prop where
  parameters : ∀ stack, a.controller = some stack →
    stack.Fits shared ∧ ∀ i, ¬ shared.Reaches i → stack.flatten[i]? = shared.flatten[i]?
  count : a.accumulator.parameterCount ≤ shared.parameterCount
  samples : a.accumulator.ClearOff shared.Reaches
  tasks : a.consolidator.HoldsWithin shared.Reaches

theorem Founded.key (h : a.Founded shared) :
    ∀ i < a.accumulator.parameterCount, shared.Reaches i → shared.Reaches (Sparse.key i) :=
  fun _ hi hreached => hreached.key (Nat.lt_of_lt_of_le hi h.count)

theorem policyGradient_place {logitScale : Float32} {gradient : List (Nat × Float32)}
    (h : a.policyGradient p logitScale = .ok gradient) (hs : a.controller = some stack) :
    ∀ u ∈ gradient, stack.finalOffset ≤ u.1 := by
  simp only [policyGradient, hs] at h
  exact Stack.finalGradient_place h

/-! ### Rewards -/

/-- What a reward does: the updates for the reward and those for the tasks are applied together. -/
theorem of_reinforce_updates (h : a.reinforce p c reward = .ok (report, b)) : ∃ stack rewards pulls,
    a.controller = some stack ∧ a.rewardUpdates p c reward = .ok rewards ∧
      a.penaltyUpdates c stack.flatten = .ok pulls ∧ b = a.applyUpdates stack (rewards ++ pulls) := by
  unfold Agent.reinforce at h
  split at h
  · cases h
  · next stack hs =>
    obtain ⟨rewards, hrewards, h⟩ := ok_of_bind h
    obtain ⟨pulls, hpulls, h⟩ := ok_of_bind h
    obtain ⟨_, -, h⟩ := ok_of_bind h
    cases h
    exact ⟨stack, rewards, pulls, hs, hrewards, hpulls, rfl⟩

/-- **An agent with a controller can be rewarded.** -/
theorem Whole.reinforce_ok {states : List CellState} (h : Whole c shared a states) (hne : shared.layers ≠ [])
    (hordered : ∀ t ∈ a.consolidator.tasks, Sparse.Ascending t.fisher.entries)
    (hv : Sees p.layers a.handles states) (hs : a.controller = some stack) (reward : Float32) :
    ∃ rewards pulls report, a.rewardUpdates p c reward = .ok rewards ∧
      a.penaltyUpdates c stack.flatten = .ok pulls ∧
      a.reinforce p c reward = .ok (report, a.applyUpdates stack (rewards ++ pulls)) := by
  have hfits := (h.sound.bound.fits hs).2
  have hkept : a.consolidator.Kept shared.parameterCount c.consolidation := by
    have hconsolidator := h.sound.consolidator
    rw [hs] at hconsolidator
    exact ⟨hfits.parameterCount ▸ hconsolidator, hordered⟩
  have hsize {stack : Stack} (hfits : stack.Fits shared) : stack.flatten.size = shared.parameterCount :=
    Stack.size_flatten_of_fits hfits.layers
  have hrewards : ∃ rewards, a.rewardUpdates p c reward = .ok rewards := by
    unfold rewardUpdates
    split
    · obtain ⟨gradient, hg⟩ := h.tailored.policyGradient_ok hne hv (hs ▸ rfl) c.controller.logitScale
      rw [hg]
      exact ⟨_, rfl⟩
    · exact ⟨[], rfl⟩
  obtain ⟨rewards, hrewards⟩ := hrewards
  obtain ⟨gradient, hg, -⟩ := (hkept.penalty_ok (hsize hfits)).2.1
  have hpulls : ∃ pulls, a.penaltyUpdates c stack.flatten = .ok pulls := by
    unfold penaltyUpdates
    rw [hg]
    exact ⟨_, rfl⟩
  obtain ⟨pulls, hpulls⟩ := hpulls
  have hpenalty : ∃ report, (a.applyUpdates stack (rewards ++ pulls)).penalty = .ok report := by
    unfold Agent.applyUpdates
    split
    · obtain ⟨report, hreport, -⟩ := (hkept.penalty_ok (hsize hfits)).1
      exact ⟨report, by rw [penalty, hs]; exact hreport⟩
    · obtain ⟨report, hreport, -⟩ := (hkept.penalty_ok (hsize (hfits.addAll (rewards ++ pulls)))).1
      exact ⟨report, hreport⟩
  obtain ⟨report, hreport⟩ := hpenalty
  refine ⟨rewards, pulls, report, hrewards, hpulls, ?_⟩
  simp only [Agent.reinforce, hs, hrewards, hpulls, bind, Except.bind, hreport]
  rfl

theorem rewardUpdates_place {rewards : List (Nat × Float32)} (h : a.rewardUpdates p c reward = .ok rewards)
    (hs : a.controller = some stack) : ∀ u ∈ rewards, stack.finalOffset ≤ u.1 := by
  unfold rewardUpdates at h
  split at h
  · obtain ⟨gradient, hg, h⟩ := ok_of_bind h
    cases h
    intro u hu
    obtain ⟨v, hv, rfl⟩ := List.mem_map.mp hu
    exact policyGradient_place hg hs v hv
  · cases h
    intro u hu
    cases hu

theorem Founded.penaltyUpdates (h : a.Founded shared) {current : Vec} {pulls : List (Nat × Float32)}
    (hp : a.penaltyUpdates c current = .ok pulls) : ∀ u ∈ pulls, shared.Reaches u.1 := by
  obtain ⟨gradient, hg, hp⟩ := ok_of_bind hp
  cases hp
  intro u hu
  obtain ⟨v, hv, rfl⟩ := List.mem_map.mp hu
  exact h.tasks.penaltyGradient hg v hv

/-- Rewards and tasks update parameters only where adapting reaches. -/
theorem Founded.updates (h : a.Founded shared) (hs : a.controller = some stack) {rewards pulls : List (Nat × Float32)}
    (hrewards : a.rewardUpdates p c reward = .ok rewards) {current : Vec}
    (hpulls : a.penaltyUpdates c current = .ok pulls) : ∀ u ∈ rewards ++ pulls, shared.Reaches u.1 := by
  intro u hu
  rcases List.mem_append.mp hu with hu | hu
  · exact .inl ((h.parameters stack hs).1.finalOffset ▸ rewardUpdates_place hrewards hs u hu)
  · exact h.penaltyUpdates hpulls u hu

theorem Founded.reinforce (h : a.Founded shared) {inputSize : Nat} {sizes : List Nat}
    (hshared : shared.OfShape inputSize sizes) (hr : a.reinforce p c reward = .ok (report, b)) :
    b.Founded shared := by
  obtain ⟨stack, rewards, pulls, hs, hrewards, hpulls, rfl⟩ := of_reinforce_updates hr
  obtain ⟨hfits, hsame⟩ := h.parameters stack hs
  have hreached := h.updates hs hrewards hpulls
  unfold applyUpdates
  split
  · exact h
  · refine ⟨?_, h.count, h.samples, h.tasks⟩
    rintro _ ⟨⟩
    refine ⟨hfits.addAll _, fun i hi => ?_⟩
    have hfront : i < stack.finalOffset := hfits.finalOffset ▸ Nat.not_le.mp fun hplace => hi (.inl hplace)
    refine ((hshared.of_fits hfits).getElem?_flatten_addAll hfront fun u hu => ?_).trans (hsame i hi)
    rintro rfl
    exact hi (hreached u hu)

/-! ### Learning -/

theorem Founded.sampleFisher (h : a.Founded shared) (p : StatePools) (logitScale : Float32) :
    (a.sampleFisher p logitScale).Founded shared := by
  unfold Agent.sampleFisher
  split
  · next gradient hg =>
    refine ⟨h.parameters, (a.accumulator.size_addAll gradient).trans_le h.count, ?_, h.tasks⟩
    cases hs : a.controller with
    | none =>
      simp only [policyGradient, hs] at hg
      cases hg
    | some stack =>
      refine h.samples.addAll fun u hu => .inl ?_
      rw [← (h.parameters stack hs).1.finalOffset]
      exact policyGradient_place hg hs u hu
  · exact h

theorem Founded.consolidated (h : a.Founded shared) {c : Config.Consolidation} (hm : 0 ≤ c.minFisher)
    (taskId : Uuid) : (a.consolidated c taskId).HoldsWithin shared.Reaches := by
  unfold Agent.consolidated
  split
  · exact h.tasks
  · split
    · exact h.tasks
    · dsimp only
      split
      · next hk => exact h.tasks.consolidate (h.samples.finish h.key hm c.maxDensity) hk
      · exact h.tasks

theorem Founded.learn (h : a.Founded shared) (hm : 0 ≤ c.consolidation.minFisher) (p : StatePools)
    (taskId : Uuid) (memory : Memory) (experience : Vec) (importance : Float32) :
    (a.learn p c taskId memory experience importance).Founded shared := by
  have hnote : (a.note memory experience importance).Founded shared := ⟨h.parameters, h.count, h.samples, h.tasks⟩
  have hsampled := hnote.sampleFisher p c.controller.logitScale
  rw [learn_eq, consolidateInTime]
  split
  · exact ⟨hsampled.parameters, Array.size_replicate.trans_le hsampled.count, Accumulator.clearOff_ofCount _ _,
      hsampled.consolidated hm taskId⟩
  · exact hsampled

theorem Founded.tick {env : Surroundings} {s : Senses} {e : Encounter} {dt : Float32} (h : a.Founded shared)
    (hm : 0 ≤ env.config.consolidation.minFisher) (ht : a.tick env p s e dt = .ok (b, q)) : b.Founded shared := by
  obtain ⟨d, hd, hb⟩ := tick_cases ht
  have hdecided : d.Founded shared :=
    ⟨hd.controller ▸ h.parameters, hd.accumulator ▸ h.count, hd.accumulator ▸ h.samples, hd.consolidator ▸ h.tasks⟩
  obtain rfl | ⟨-, experience, _, _, memory, -, rfl⟩ := hb
  · exact ⟨hdecided.parameters, hdecided.count, hdecided.samples, hdecided.tasks⟩
  · have hlearned := hdecided.learn hm q env.taskId memory experience d.decision.memoryWriteSignal
    exact ⟨hlearned.parameters, hlearned.count, hlearned.samples, hlearned.tasks⟩

theorem eq_of_initialController {binding : Binding} (h : initialController binding shared = some stack) :
    stack = shared := by
  unfold initialController at h
  split at h <;> cases h
  rfl

theorem countOf_initialController_le (binding : Binding) (shared : Stack) :
    countOf (initialController binding shared) ≤ shared.parameterCount := by
  cases h : initialController binding shared with
  | none => exact Nat.zero_le _
  | some stack =>
    obtain rfl := eq_of_initialController h
    exact Nat.le_refl _

theorem founded_assemble {profile : Profile} {binding : Binding} {handles : List Handle} {left : Budget}
    (hshared : shared.Fits shared)
    (h : assemble profile binding (initialController binding shared) handles left c = .ok a) :
    a.Founded shared := by
  obtain ⟨_, _, consolidator, -, hk, rfl⟩ := assemble_cases h
  refine ⟨fun stack hs => ?_, ?_, Accumulator.clearOff_ofCount _ _, fun t ht => ?_⟩
  · obtain rfl := eq_of_initialController hs
    exact ⟨hshared, fun _ _ => rfl⟩
  · exact Array.size_replicate.trans_le (countOf_initialController_le binding shared)
  · dsimp only at ht
    rw [Consolidator.tasks_ofConfig hk] at ht
    cases ht

/-- The parameters of a resumed agent are those it was saved with, or the shared ones. -/
theorem Founded.parameters_of_restore {a₀ : Agent} (h : a.Founded shared) (hshared : shared.Fits shared)
    {binding : Binding} (hc : a₀.controller = initialController binding shared) {memory : MemoryRecord}
    {states states₀ : List CellState} (hv : Sees p.layers a₀.handles states₀)
    (hr : a₀.restore (a.picture states memory) p = (.ok (), b, q)) (hs : b.controller = some stack) :
    stack.Fits shared ∧ ∀ i, ¬ shared.Reaches i → stack.flatten[i]? = shared.flatten[i]? := by
  obtain ⟨_, next, -, -, -, -, rfl⟩ := of_restore hv hr
  obtain ⟨-, ⟨-, hsame⟩ | ⟨values, stack₀, stack', hvalues, hstack₀, hload, hloaded⟩⟩ :=
    Agent.parameters_of_restore hv hr
  · obtain rfl := eq_of_initialController (hc.symm.trans (hsame.symm.trans hs))
    exact ⟨hshared, fun _ _ => rfl⟩
  · obtain ⟨-, hvalues⟩ := Option.ite_none_right_eq_some.mp hvalues
    obtain ⟨stack₁, hstack₁, rfl⟩ := Option.map_eq_some_iff.mp hvalues
    obtain rfl : stack = stack' := Option.some.inj (hs.symm.trans hloaded)
    obtain rfl := eq_of_initialController (hc.symm.trans hstack₀)
    -- What was flattened is loaded as it was.
    obtain rfl := Except.ok.inj ((h.parameters stack₁ hstack₁).1.load_flatten.symm.trans hload)
    exact h.parameters stack₁ hstack₁

/-! ### Whatever happens to an agent -/

/-- **An agent keeps its foundations** through all its ticks and rewards, resets and resumptions. -/
theorem Chronicled.founded (h : a.Chronicled Eq c ds) (hm : 0 ≤ c.consolidation.minFisher)
    (hshared : Stack.ofConfig (controllerInputWidth c.memory.width) c.controller = .ok shared) :
    a.Founded shared := by
  induction h with
  | spawned hstack hass =>
    cases hshared.symm.trans hstack
    exact founded_assemble (Stack.fits_ofConfig hstack) hass
  | ticked _ henv _ _ _ ht ih =>
    subst henv
    have hnext := (ih hm hshared).tick hm ht
    exact ⟨hnext.parameters, hnext.count, hnext.samples, hnext.tasks⟩
  | reset _ ih =>
    have hold := ih hm hshared
    exact ⟨hold.parameters, Array.size_replicate.trans_le hold.count, Accumulator.clearOff_ofCount _ _, hold.tasks⟩
  | rewarded _ hr ih => exact (ih hm hshared).reinforce (Stack.ofShape_ofConfig hshared) hr
  | shifted _ _ ih =>
    have hold := ih hm hshared
    exact ⟨hold.parameters, hold.count, hold.samples, hold.tasks⟩
  | resumed _ hnear hmemory hstack hass hv hr ih =>
    subst hnear
    cases hshared.symm.trans hstack
    have hold := ih hm hshared
    have hafter := takesAfter_of_restore hv hr
    refine ⟨fun stack hs => ?_, ?_, hold.samples.restore hold.key hafter.accumulator, ?_⟩
    · obtain ⟨_, _, _, -, -, rfl⟩ := assemble_cases hass
      exact hold.parameters_of_restore (Stack.fits_ofConfig hstack) rfl hv hr hs
    · rw [Accumulator.parameterCount, Accumulator.eq_ofEntries hafter.accumulator, Accumulator.size_ofEntries]
      exact (founded_assemble (Stack.fits_ofConfig hstack) hass).count
    · intro t ht
      rw [Consolidator.tasks_of_restore hafter.consolidator] at ht
      exact hold.tasks t ht

end Agent

namespace Society

variable {c : Config} {w : Society} {id : Uuid} {a b : Agent} {states : List CellState} {reward : Float32}

theorem Holds.reinforce_ok (h : w.Holds id a states) {report : PenaltyReport Float32}
    (hr : a.reinforce w.pools w.config reward = .ok (report, b)) :
    (w.reinforce id reward).1 = .ok report ∧ (w.reinforce id reward).2.Holds id b states := by
  have hact : Agent.reinforceAct w.config reward a w.pools = (.ok report, b, w.pools.put a.handles states) := by
    rw [put_of_sees h.sees, Agent.reinforceAct, hr]
  rw [reinforce_eq_act]
  exact h.act hact rfl (Agent.reinforce_keeps hr).handles

theorem Holds.reinforce_error (h : w.Holds id a states) {err : Error}
    (hr : a.reinforce w.pools w.config reward = .error err) : w.reinforce id reward = (.error err, w) := by
  obtain ⟨k, hl⟩ := h.locate
  simp only [Society.reinforce, hl, hr]

/-- The entries of all tables of an agent ascend. -/
theorem Experienced.ordered (hw : w.Experienced c) (h : w.Holds id a states) :
    ∀ t ∈ a.consolidator.tasks, Sparse.Ascending t.fisher.entries := by
  obtain ⟨events, hlived⟩ := hw.holds id a states h
  exact hlived.tidy.tables

end Society

/-! ## What a reward does to an agent -/

namespace Agent

variable {a : Agent} {stack : Stack} {updates : List (Nat × Float32)}

theorem applyUpdates_nil : a.applyUpdates stack [] = a := rfl

theorem binding_applyUpdates (hb : a.binding ≠ .detached) (hne : updates ≠ []) :
    (a.applyUpdates stack updates).binding = .perAgent := by
  rw [applyUpdates, if_neg (by simpa using hne)]
  dsimp only
  split
  · rfl
  · next hshared =>
    cases h : a.binding with
    | shared => exact absurd h hshared
    | perAgent => rfl
    | detached => exact absurd h hb

theorem binding_changes_iff (hb : a.binding ≠ .detached) :
    (a.applyUpdates stack updates).binding ≠ a.binding ↔ a.binding = .shared ∧ updates ≠ [] := by
  by_cases hne : updates = []
  · subst hne
    simp [applyUpdates_nil]
  · rw [binding_applyUpdates hb hne]
    cases h : a.binding with
    | detached => exact absurd h hb
    | shared => simp [hne]
    | perAgent => simp

theorem applyUpdates_frame : ∃ controller binding, a.applyUpdates stack updates = { a with controller, binding } := by
  unfold applyUpdates
  split
  · exact ⟨_, _, rfl⟩
  · exact ⟨_, _, rfl⟩

/-- Rewarding agent `a` makes it `b`: the updates change only parameters at places in `reached`, and whose they are.
With the first update the agent gets parameters of its own, and keeps them as its own. -/
structure Adapts (c : Config) (reached : Nat → Prop) (p : StatePools) (reward : Float32) (a b : Agent) : Prop where
  frame : ∃ controller binding, b = { a with controller, binding }
  updated : ∃ stack rewards pulls, a.controller = some stack ∧ a.rewardUpdates p c reward = .ok rewards ∧
    a.penaltyUpdates c stack.flatten = .ok pulls ∧ b = a.applyUpdates stack (rewards ++ pulls) ∧
    (∀ u ∈ rewards ++ pulls, reached u.1) ∧ (rewards ++ pulls = [] → b = a) ∧
    (rewards ++ pulls ≠ [] → b.binding = .perAgent) ∧
    (b.binding ≠ a.binding ↔ a.binding = .shared ∧ rewards ++ pulls ≠ [])

end Agent

variable {c : Config} {w : Society} {id : Uuid} {a : Agent}

/-- **Rewards reach every agent with a controller.** -/
theorem Genuine.reinforce_ok {states : List CellState} {stack : Stack} (hw : Genuine c w) (hheld : w.Holds id a states)
    (hs : a.controller = some stack) (reward : Float32) : ∃ rewards pulls report w',
      a.rewardUpdates w.pools c reward = .ok rewards ∧ a.penaltyUpdates c stack.flatten = .ok pulls ∧
      w.reinforce id reward = (.ok report, w') ∧ w'.agent id = .ok (a.applyUpdates stack (rewards ++ pulls)) := by
  have hsound := hw.sound
  obtain ⟨rewards, pulls, report, hrewards, hpulls, hr⟩ := (hsound.whole id a states hheld).reinforce_ok
    (Stack.layers_ne_nil hsound.owned.stack) (hw.experienced.ordered hheld) hheld.sees hs reward
  rw [← hsound.owned.config] at hr
  obtain ⟨hok, hheld'⟩ := hheld.reinforce_ok hr
  exact ⟨rewards, pulls, report, _, hrewards, hpulls, Prod.ext hok rfl, hheld'.agent⟩

theorem Native.reinforce_adapts (hw : Native c w) (hm : 0 ≤ c.consolidation.minFisher) (ha : w.agent id = .ok a)
    (reward : Float32) :
    (a.controller = none ∧ ∃ err, w.reinforce id reward = (.error err, w)) ∨
      ∃ report w' b, w.reinforce id reward = (.ok report, w') ∧ w'.agent id = .ok b ∧
        a.Adapts c w.controller.Reaches w.pools reward b := by
  have hsound := hw.genuine.sound
  obtain ⟨states, hheld⟩ := hsound.owned.holds_agent ha
  obtain ⟨ds, hds⟩ := hw.chronicled.holds id a states hheld
  have hfounded := hds.founded hm hsound.owned.stack
  cases hs : a.controller with
  | none =>
    have hr : a.reinforce w.pools w.config reward =
        .error (.config "detached agents have no parameters to adapt") := by rw [Agent.reinforce, hs]; rfl
    exact .inl ⟨rfl, _, hheld.reinforce_error hr⟩
  | some stack =>
    obtain ⟨rewards, pulls, report, w', hrewards, hpulls, hr, hagent⟩ := hw.genuine.reinforce_ok hheld hs reward
    have hb : a.binding ≠ .detached := ((hsound.whole id a states hheld).sound.bound.fits hs).1
    refine .inr ⟨report, w', _, hr, hagent, Agent.applyUpdates_frame, stack, rewards, pulls, hs, hrewards, hpulls, rfl,
      hfounded.updates hs hrewards hpulls, fun h => ?_, Agent.binding_applyUpdates hb, Agent.binding_changes_iff hb⟩
    rw [h, Agent.applyUpdates_nil]

/-- **Adapting reaches the last layer only.** For agent `a` of a society `w` that only ever had configuration `c`,
with `shared` the controller that `c` builds: the parameters at all places that `shared.Reaches` does not hold of are
those of `shared`, every entry of every task's table is at a place that it holds of, and so is every update of
`Society.reinforce`, which changes nothing of `a` but `controller` and `binding` (`Agent.Adapts`). Up to `2 ^ 32`
parameters these places are those from `shared.finalOffset` on; beyond, `Accumulator.finish` and
`Accumulator.toRecord` cut places down to 32 bits. -/
theorem Native.adapts_last_layer (hw : Native c w) (hm : 0 ≤ c.consolidation.minFisher)
    (ha : w.agent id = .ok a) :
    ∃ shared, Stack.ofConfig (controllerInputWidth c.memory.width) c.controller = .ok shared ∧
      (shared.parameterCount ≤ UInt32.size → ∀ i, shared.Reaches i ↔ shared.finalOffset ≤ i) ∧
      (∀ stack, a.controller = some stack →
        ∀ i, ¬ shared.Reaches i → stack.flatten[i]? = shared.flatten[i]?) ∧
      (∀ t ∈ a.consolidator.tasks, ∀ e ∈ t.fisher.entries, shared.Reaches e.1) ∧
      ∀ reward, (a.controller = none ∧ ∃ err, w.reinforce id reward = (.error err, w)) ∨
        ∃ report w' b, w.reinforce id reward = (.ok report, w') ∧ w'.agent id = .ok b ∧
          a.Adapts c shared.Reaches w.pools reward b := by
  have hsound := hw.genuine.sound
  have hstack := hsound.owned.stack
  obtain ⟨states, hheld⟩ := hsound.owned.holds_agent ha
  obtain ⟨ds, hds⟩ := hw.chronicled.holds id a states hheld
  have hfounded := hds.founded hm hstack
  exact ⟨w.controller, hstack, fun hcount i => Stack.reaches_iff hcount,
    fun stack hs => (hfounded.parameters stack hs).2, hfounded.tasks, hw.reinforce_adapts hm ha⟩

/-- So it is for an agent with two layers: all that can change are the parameters from 98432 on. -/
theorem adapts_last_layer_of_two : ∃ c w a, c.controller.hiddenSizes = [32, 32] ∧ 0 ≤ c.consolidation.minFisher ∧
    Native c w ∧ w.agent ⟨1, 2⟩ = .ok a ∧ ∃ shared,
      Stack.ofConfig (controllerInputWidth c.memory.width) c.controller = .ok shared ∧
      (∀ stack, a.controller = some stack → ∀ i < 98432, stack.flatten[i]? = shared.flatten[i]?) ∧
      (∀ t ∈ a.consolidator.tasks, ∀ e ∈ t.fisher.entries, 98432 ≤ e.1) ∧
      ∀ reward, ∃ report w' b, w.reinforce ⟨1, 2⟩ reward = (.ok report, w') ∧ w'.agent ⟨1, 2⟩ = .ok b ∧
        a.Adapts c (98432 ≤ ·) w.pools reward b := by
  obtain ⟨w, hw, a, ha, hs⟩ : ∃ w, Native { controller := { hiddenSizes := [32, 32] } } w ∧
      ∃ a, w.agent ⟨1, 2⟩ = .ok a ∧ a.controller.isSome = true :=
    ⟨_, .next (.spawn ⟨⟨1, 2⟩, "Vex", .rogue, none⟩) rfl (.start .scalar rfl), _, rfl, rfl⟩
  obtain ⟨shared, hshared, hplaces, hfront, htasks, hreward⟩ := hw.adapts_last_layer (by decide) ha
  have hreached : shared.Reaches = (98432 ≤ ·) := by
    cases hshared
    exact funext fun i => propext (hplaces (by decide) i)
  rw [hreached] at hfront htasks hreward
  refine ⟨_, w, a, rfl, by decide, hw, ha, shared, hshared, fun stack hs i hi => ?_, htasks, fun reward => ?_⟩
  · exact hfront stack hs i (Nat.not_le.mpr hi)
  refine (hreward reward).resolve_left fun ⟨hnone, _⟩ => ?_
  rw [hnone] at hs
  cases hs

/-! ## Agents with parameters of their own -/

/-- A derivative that is not finite is left in, whatever the state was. -/
theorem Cell.gradient_ne_nil {c : Cell} {dHidden : Vec} {dh : Float32} (hd : dHidden[0]? = some dh)
    (hdh : dh.isFinite = false) (hsize : 0 < c.hiddenSize) (s : CellState) : c.gradient s dHidden ≠ [] := by
  have hderivative : (dh * Single.tanh (s.cell.getD 0 0) * (s.gate .output).getD 0 0 *
      (1 - (s.gate .output).getD 0 0)).isFinite = false :=
    Single.isFinite_mul_eq_false (Single.isFinite_mul_eq_false (Single.isFinite_mul_eq_false hdh _) _) _
  exact List.ne_nil_of_mem (Cell.mem_gradient.mpr ⟨0, dh, 3, _, hsize, hd, Single.beq_zero_eq_false hdh, rfl,
    Cell.mem_rowGradient.mpr ⟨Single.beq_zero_eq_false hderivative, .inl rfl⟩⟩)

theorem Choice.getElem?_policyGradient {probs : Vec} {k size : Nat} {x : Float32} (hk : k < size)
    (hx : probs[k]? = some x) (action : Action) (logitScale : Float32) :
    (policyGradient probs action logitScale size)[k]? =
      some (logitScale * ((if k = action.index then 1 else 0) - x)) := by
  rw [policyGradient, Array.getElem?_map, Array.getElem?_range, if_pos hk, Option.map_some, hx]

namespace Agent

variable {c : Config} {a b : Agent} {stack : Stack} {p q : StatePools} {reward : Float32}

theorem policyGradient_ne_nil {logitScale : Float32} {gradient : List (Nat × Float32)}
    (h : a.policyGradient p logitScale = .ok gradient) (hs : a.controller = some stack)
    (hsize : 0 < stack.finalSize) (hp : 0 < a.probabilities.size) (hscale : logitScale.isFinite = false) :
    gradient ≠ [] := by
  simp only [policyGradient, hs] at h
  obtain ⟨cell, _, state, hcell, -, -, rfl⟩ := Stack.of_finalGradient h
  have hfinal : stack.finalSize = cell.hiddenSize := by rw [Stack.finalSize, hcell]; rfl
  have hfirst := Choice.getElem?_policyGradient hsize (Array.getElem?_eq_getElem hp) a.decision.action logitScale
  exact List.map_eq_nil_iff.not.mpr
    (Cell.gradient_ne_nil hfirst (Single.isFinite_mul_eq_false hscale _) (hfinal ▸ hsize) state)

theorem rewardUpdates_ne_nil {rewards : List (Nat × Float32)} (h : a.rewardUpdates p c reward = .ok rewards)
    (hticks : 0 < a.ticks) (hd : a.decision.degraded = false) (hr : reward.isFinite = true)
    (hs : a.controller = some stack) (hsize : 0 < stack.finalSize) (hp : 0 < a.probabilities.size)
    (hscale : c.controller.logitScale.isFinite = false) : rewards ≠ [] := by
  rw [rewardUpdates, decide_eq_true hticks, hd, hr] at h
  obtain ⟨gradient, hg, h⟩ := ok_of_bind h
  cases h
  exact List.map_eq_nil_iff.not.mpr (policyGradient_ne_nil hg hs hsize hp hscale)

/-- An agent that decided on its own has a probability of each action. -/
theorem probabilities_of_tick {env : Surroundings} {s : Senses} {e : Encounter} {dt : Float32}
    (h : a.tick env p s e dt = .ok (b, q)) (hd : b.decision.degraded = false) :
    b.probabilities.size = Action.count := by
  obtain ⟨d, hpoised, rfl | ⟨hown, experience, _, _, memory, -, rfl⟩⟩ := tick_cases h
  · obtain ⟨decision, hexpress, hdegraded, -⟩ := d.forgo.express_decision e
    rw [hexpress] at hd ⊢
    exact hpoised.chosen (hdegraded.symm.trans hd)
  · obtain ⟨_, _, _, _, hlearn⟩ :=
      d.learn_eq_note q env.config env.taskId memory experience d.decision.memoryWriteSignal
    rw [hlearn]
    exact hpoised.chosen hown

end Agent

/-- Within two ticks, an agent with a controller decides on its own. -/
theorem Native.comes_to_decide (hw : Native c w) (hc : c.Steady w.controller) (ha : w.agent id = .ok a)
    (hb : a.binding ≠ .detached) : ∃ w' b, Native c w' ∧ w'.agent id = .ok b ∧ b.binding = a.binding ∧
      b.ticks = a.ticks + 1 + 1 ∧ b.decision.degraded = false ∧ b.probabilities.size = Action.count := by
  obtain ⟨states, hheld⟩ := hw.genuine.sound.owned.holds_agent ha
  obtain ⟨a₁, states₁, ht₁, -, hheld₁, hbinding₁, hcalm, -⟩ :=
    hw.genuine.reachable.tick_own hc hheld hb default default 0 default
  have hw₁ : Native c (w.tick id default default 0 default).2 := hw.next (.tick id default default 0 default) rfl
  have hc₁ : c.Steady (w.tick id default default 0 default).2.controller := by
    rw [hw.genuine.sound.owned.controller_eq hw₁.genuine.sound.owned]
    exact hc
  obtain ⟨b, _, ht, -, hheld', hbinding, -, hown⟩ :=
    hw₁.genuine.reachable.tick_own hc₁ hheld₁ (fun hd => hb (hbinding₁.symm.trans hd)) default default 0 default
  have hp := Agent.probabilities_of_tick ht (hown hcalm).1
  refine ⟨_, _, hw₁.next (.tick id default default 0 default) rfl, hheld'.agent, hbinding.trans hbinding₁, ?_,
    (hown hcalm).1, hp⟩
  exact (Agent.ticked_of_tick ht).ticks.trans (congrArg (· + 1) (Agent.ticked_of_tick ht₁).ticks)

/-- An agent that already has parameters of its own keeps its binding, though a reward changes them. With an infinite
scale of the logits there are updates whatever the agent decided. -/
theorem reinforce_keeps_perAgent_binding : ∃ c w a stack rewards pulls report w' b,
    c.controller.hiddenSizes = [32, 32] ∧ 0 ≤ c.consolidation.minFisher ∧ Native c w ∧ w.agent ⟨1, 2⟩ = .ok a ∧
      a.controller = some stack ∧ a.rewardUpdates w.pools c 1 = .ok rewards ∧
      a.penaltyUpdates c stack.flatten = .ok pulls ∧ rewards ++ pulls ≠ [] ∧
      w.reinforce ⟨1, 2⟩ 1 = (.ok report, w') ∧ w'.agent ⟨1, 2⟩ = .ok b ∧
      b = a.applyUpdates stack (rewards ++ pulls) ∧ b.binding = a.binding := by
  obtain ⟨w₀, hw₀, a₀, ha₀, hown, hticks⟩ :
      ∃ w, Native { controller := { hiddenSizes := [32, 32], logitScale := Single.infinity } } w ∧
        ∃ a, w.agent ⟨1, 2⟩ = .ok a ∧ a.binding = .perAgent ∧ a.ticks = 0 :=
    ⟨_, .next (.spawnWith ⟨⟨1, 2⟩, "Vex", .rogue, none⟩ .perAgent) rfl (.start .scalar rfl), _, rfl, rfl, rfl⟩
  have hsteady := hw₀.genuine.steady rfl (by decide) (by decide)
  obtain ⟨w, a, hw, ha, hbinding, hticked, hdecided, hp⟩ :=
    hw₀.comes_to_decide hsteady ha₀ (by rw [hown]; decide)
  rw [hown] at hbinding
  have hsound := hw.genuine.sound
  obtain ⟨states, hheld⟩ := hsound.owned.holds_agent ha
  obtain ⟨stack, hs, hfits⟩ := (hsound.whole _ a states hheld).sound.bound.attached (by rw [hbinding]; decide)
  have hsize : 0 < stack.finalSize := by
    rw [Stack.finalSize_eq, hfits.hiddenSizes, Stack.hiddenSizes_ofConfig hsound.owned.stack]
    decide
  obtain ⟨hnone, -⟩ | ⟨report, w', b, hreinforce, hb, -, stack', rewards, pulls, hs', hrewards, hpulls, rfl, -, -, -,
    hchanges⟩ := hw.reinforce_adapts (by decide) ha 1
  · rw [hs] at hnone
    cases hnone
  · obtain rfl := Option.some.inj (hs.symm.trans hs')
    have hne : rewards ≠ [] := Agent.rewardUpdates_ne_nil hrewards (by rw [hticked, hticks]; decide) hdecided
      (by decide) hs hsize (by rw [hp]; decide) (by decide)
    refine ⟨_, w, a, stack, rewards, pulls, report, w', _, rfl, by decide, hw, ha, hs, hrewards, hpulls,
      List.append_ne_nil_of_left_ne_nil hne pulls, hreinforce, hb, rfl, ?_⟩
    by_contra hchanged
    rw [(hchanges.mp hchanged).1] at hbinding
    cases hbinding

end NpcMind
