import Mathlib.Data.List.Nodup
import NpcMind.Proofs.Acquisition
import NpcMind.Proofs.LastLayer

/-!
# One derivative for each parameter

A sample of derivatives is taken unit by unit, gate by gate and value by value, and leaves out what is zero. The
parameters of a gate of a unit are one row of the weights and one bias. A place in the flat order tells its row,
and a row tells its unit and its gate, so no two derivatives of a sample are by the same parameter. Therefore an
accumulator that is fed a sample squares each derivative by itself, and never looks for a parameter in vain.
-/

namespace NpcMind

open Outcome

/-! ### Places -/

namespace Cell

variable {c : Cell} {s : CellState} {intake dHidden : Vec} {row k : Nat} {g : Float32} {u : Nat × Float32}

/-- The place of the weight with which a gate of a unit takes in one of the values. -/
def weightPlace (c : Cell) (gate : Gate) (k col : Nat) : Nat := (gate.index * c.hiddenSize + k) * c.intakeSize + col

/-- The place of the bias of a gate of a unit. -/
def biasPlace (c : Cell) (gate : Gate) (k : Nat) : Nat :=
  4 * c.hiddenSize * c.intakeSize + (gate.index * c.hiddenSize + k)

/-- The row that the parameter at a place belongs to. -/
def rowOf (c : Cell) (i : Nat) : Nat := if i < c.weightCount then i / c.intakeSize else i - c.weightCount

theorem weight_lt (hrow : row < 4 * c.hiddenSize) {col : Nat} (hcol : col < c.intakeSize) :
    row * c.intakeSize + col < c.weightCount :=
  calc row * c.intakeSize + col
      < (row + 1) * c.intakeSize := by rw [Nat.succ_mul]; omega
    _ ≤ 4 * c.hiddenSize * c.intakeSize := Nat.mul_le_mul_right _ hrow

theorem rowOf_weight (hrow : row < 4 * c.hiddenSize) {col : Nat} (hcol : col < c.intakeSize) :
    c.rowOf (row * c.intakeSize + col) = row := by
  rw [rowOf, if_pos (weight_lt hrow hcol), Nat.mul_comm, Nat.mul_add_div (by omega), Nat.div_eq_of_lt hcol,
    Nat.add_zero]

theorem rowOf_bias (c : Cell) (row : Nat) : c.rowOf (c.weightCount + row) = row := by
  rw [rowOf, if_neg (by omega), Nat.add_sub_cancel_left]

/-! ### Rows -/

/-- What is visited for a row belongs to that row. -/
theorem place_of_mem_rowGradient (hi : intake.size = c.intakeSize) (hrow : row < 4 * c.hiddenSize)
    (hu : u ∈ c.rowGradient intake row g) : c.rowOf u.1 = row ∧ u.1 < c.parameterCount := by
  obtain ⟨-, rfl | ⟨col, x, hx, -, rfl⟩⟩ := mem_rowGradient.mp hu
  · exact ⟨rowOf_bias c row, Nat.add_lt_add_left hrow _⟩
  · have hcol : col < c.intakeSize := hi ▸ (Array.getElem?_eq_some_iff.mp hx).1
    exact ⟨rowOf_weight hrow hcol, Nat.lt_of_lt_of_le (weight_lt hrow hcol) (Nat.le_add_right _ _)⟩

theorem nodup_rowGradient (hi : intake.size = c.intakeSize) (hrow : row < 4 * c.hiddenSize) :
    ((c.rowGradient intake row g).map Prod.fst).Nodup := by
  unfold rowGradient
  split
  · exact List.nodup_nil
  · rw [List.map_append, List.nodup_append]
    refine ⟨?_, List.nodup_singleton _, ?_⟩
    · have hcols : intake.toList.zipIdx.Pairwise fun x y => x.2 ≠ y.2 :=
        List.pairwise_map.mp (List.nodup_zipIdx_map_snd _)
      refine List.pairwise_map.mpr (List.pairwise_filterMap.mpr (hcols.imp ?_))
      rintro ⟨x, col⟩ ⟨y, col'⟩ hne v hv w hw heq
      obtain ⟨-, hv⟩ := Option.ite_none_right_eq_some.mp hv
      obtain ⟨-, hw⟩ := Option.ite_none_right_eq_some.mp hw
      cases hv
      cases hw
      exact hne (Nat.add_left_cancel heq)
    · -- The weights of the row come before all biases.
      intro i hweight j hbias
      obtain ⟨v, hv, rfl⟩ := List.mem_map.mp hweight
      obtain rfl := List.mem_singleton.mp hbias
      obtain ⟨⟨x, col⟩, hx, hv⟩ := List.mem_filterMap.mp hv
      obtain ⟨-, hv⟩ := Option.ite_none_right_eq_some.mp hv
      cases hv
      rw [List.mk_mem_zipIdx_iff_getElem?, Array.getElem?_toList] at hx
      have hcol : col < c.intakeSize := hi ▸ (Array.getElem?_eq_some_iff.mp hx).1
      have := weight_lt hrow hcol
      show row * c.intakeSize + col ≠ c.weightCount + row
      omega

/-! ### Units and gates -/

/-- Visits made for the entries of a list in turn are at different places, if those for one entry are, and each place
tells which entry it is for. -/
theorem nodup_visits {α : Type} {l : List α} {f : α × Nat → List (Nat × Float32)} (tag : Nat → Nat)
    (hnodup : ∀ x ∈ l.zipIdx, ((f x).map Prod.fst).Nodup) (htag : ∀ x ∈ l.zipIdx, ∀ u ∈ f x, tag u.1 = x.2) :
    ((l.zipIdx.flatMap f).map Prod.fst).Nodup := by
  rw [List.map_flatMap, List.nodup_flatMap]
  have hplaces : l.zipIdx.Pairwise fun x y => x.2 ≠ y.2 := List.pairwise_map.mp (List.nodup_zipIdx_map_snd l)
  refine ⟨hnodup, hplaces.imp_of_mem fun {x y} hx hy hne => ?_⟩
  rw [Function.onFun, List.disjoint_left]
  intro i hi hi'
  obtain ⟨u, hu, rfl⟩ := List.mem_map.mp hi
  obtain ⟨v, hv, heq⟩ := List.mem_map.mp hi'
  refine hne ?_
  rw [← htag x hx u hu, ← htag y hy v hv, heq]

theorem row_lt_of_gate {i : Nat} (hi : i < 4) (hk : k < c.hiddenSize) : i * c.hiddenSize + k < 4 * c.hiddenSize :=
  calc i * c.hiddenSize + k
      < (i + 1) * c.hiddenSize := by rw [Nat.succ_mul]; omega
    _ ≤ 4 * c.hiddenSize := Nat.mul_le_mul_right _ hi

/-- What is visited for a gate of a unit tells the gate and the unit. -/
theorem tags_of_mem_rowGradient (h : s.OfLayer c) (hk : k < c.hiddenSize) {i : Nat} (hi : i < 4)
    (hu : u ∈ c.rowGradient s.intake (i * c.hiddenSize + k) g) :
    c.rowOf u.1 / c.hiddenSize = i ∧ c.rowOf u.1 % c.hiddenSize = k := by
  rw [(place_of_mem_rowGradient h.intake (row_lt_of_gate hi hk) hu).1, Nat.mul_comm]
  exact ⟨by rw [Nat.mul_add_div (by omega), Nat.div_eq_of_lt hk, Nat.add_zero],
    (Nat.mul_add_mod _ _ _).trans (Nat.mod_eq_of_lt hk)⟩

/-- **No two derivatives of a layer are by the same parameter.** -/
theorem nodup_gradient (h : s.OfLayer c) (dHidden : Vec) : ((c.gradient s dHidden).map Prod.fst).Nodup := by
  have hunit {dh : Float32} {k : Nat} (hx : (dh, k) ∈ (dHidden.toList.take c.hiddenSize).zipIdx) :
      k < c.hiddenSize := by
    have hlt := List.snd_lt_of_mem_zipIdx hx
    rw [List.length_take] at hlt
    dsimp only at hlt
    omega
  -- A place tells the unit it is for, and among the places for one unit the gate.
  refine nodup_visits (fun i => c.rowOf i % c.hiddenSize) ?_ ?_
  · rintro ⟨dh, k⟩ hx
    dsimp only
    split
    · exact List.nodup_nil
    · refine nodup_visits (fun i => c.rowOf i / c.hiddenSize) ?_ ?_
      · rintro ⟨g, i⟩ hg
        exact nodup_rowGradient h.intake (row_lt_of_gate (List.snd_lt_of_mem_zipIdx hg) (hunit hx))
      · rintro ⟨g, i⟩ hg u hu
        exact (tags_of_mem_rowGradient h (hunit hx) (List.snd_lt_of_mem_zipIdx hg) hu).1
  · rintro ⟨dh, k⟩ hx u hu
    dsimp only at hu ⊢
    split at hu
    · cases hu
    · obtain ⟨⟨g, i⟩, hg, hu⟩ := List.mem_flatMap.mp hu
      exact (tags_of_mem_rowGradient h (hunit hx) (List.snd_lt_of_mem_zipIdx hg) hu).2

/-! ### What is visited -/

/-- The derivative by the sum in front of a gate of a unit is that number, and not zero. -/
def Derives (c : Cell) (s : CellState) (dHidden : Vec) (gate : Gate) (k : Nat) (dz : Float32) : Prop :=
  k < c.hiddenSize ∧ (dz == 0) = false ∧ ∃ dh, dHidden[k]? = some dh ∧ (dh == 0) = false ∧
    (gateDerivatives s k dh)[gate.index]? = some dz

theorem exists_gate {i : Nat} (hi : i < 4) : ∃ gate : Gate, gate.index = i := by
  match i, hi with
  | 0, _ => exact ⟨.forget, rfl⟩
  | 1, _ => exact ⟨.input, rfl⟩
  | 2, _ => exact ⟨.candidate, rfl⟩
  | 3, _ => exact ⟨.output, rfl⟩

/-- The derivatives of a layer are those by the biases and by the weights of values that are not zero. -/
theorem mem_gradient_iff : u ∈ c.gradient s dHidden ↔ ∃ gate k dz, c.Derives s dHidden gate k dz ∧
    (u = (c.biasPlace gate k, dz) ∨
      ∃ col x, s.intake[col]? = some x ∧ (x == 0) = false ∧ u = (c.weightPlace gate k col, dz * x)) := by
  rw [mem_gradient]
  constructor
  · rintro ⟨k, dh, i, dz, hk, hdh, hne, hdz, hu⟩
    obtain ⟨gate, rfl⟩ := exists_gate (List.getElem?_eq_some_iff.mp hdz).1
    obtain ⟨hdzne, hu⟩ := mem_rowGradient.mp hu
    exact ⟨gate, k, dz, ⟨hk, hdzne, dh, hdh, hne, hdz⟩, hu⟩
  · rintro ⟨gate, k, dz, ⟨hk, hdzne, dh, hdh, hne, hdz⟩, hu⟩
    exact ⟨k, dh, gate.index, dz, hk, hdh, hne, hdz, mem_rowGradient.mpr ⟨hdzne, hu⟩⟩

theorem lt_of_mem_gradient (h : s.OfLayer c) (hu : u ∈ c.gradient s dHidden) : u.1 < c.parameterCount := by
  obtain ⟨k, dh, i, dz, hk, -, -, hdz, hu⟩ := mem_gradient.mp hu
  exact (place_of_mem_rowGradient h.intake (row_lt_of_gate (List.getElem?_eq_some_iff.mp hdz).1 hk) hu).2

end Cell

/-! ### Feeding an accumulator -/

namespace Accumulator

variable {a : Accumulator} {visits : List (Nat × Float32)} {i : Nat} {g : Float32}

theorem sums_add (a : Accumulator) (i : Nat) (g : Float32) (j : Nat) : (a.add i g).sums[j]? =
    if i = j ∧ g.isFinite = true then a.sums[j]?.map (· + g * g) else a.sums[j]? := by
  unfold add
  by_cases hg : g.isFinite = true
  · rw [if_pos hg]
    simp only [hg, and_true]
    exact Array.getElem?_modify
  · rw [if_neg hg, if_neg fun h => hg h.2]

/-- A sum is left alone by derivatives by other parameters, and by those that are not finite. -/
theorem sums_addAll_of_absent (h : ∀ g, (i, g) ∈ visits → g.isFinite = false) :
    (a.addAll visits).sums[i]? = a.sums[i]? := by
  unfold addAll
  induction visits generalizing a with
  | nil => rfl
  | cons u rest ih =>
    refine (ih fun g hg => h g (List.mem_cons_of_mem u hg)).trans ((sums_add a u.1 u.2 i).trans (if_neg ?_))
    rintro ⟨rfl, hfinite⟩
    rw [h u.2 List.mem_cons_self] at hfinite
    cases hfinite

/-- A sum has the square of the one derivative by its parameter added. -/
theorem sums_addAll_of_mem (hnodup : (visits.map Prod.fst).Nodup) (hmem : (i, g) ∈ visits)
    (hg : g.isFinite = true) : (a.addAll visits).sums[i]? = a.sums[i]?.map (· + g * g) := by
  induction visits generalizing a with
  | nil => cases hmem
  | cons u rest ih =>
    obtain ⟨hfirst, hrest⟩ := List.nodup_cons.mp hnodup
    rcases List.mem_cons.mp hmem with rfl | hmem
    · -- None of the others is by this parameter.
      refine (sums_addAll_of_absent (a := a.add i g) fun g' hg' => ?_).trans ?_
      · exact absurd (List.mem_map_of_mem hg') hfirst
      · rw [sums_add, if_pos ⟨rfl, hg⟩]
    · refine (ih (a := a.add u.1 u.2) hrest hmem).trans ?_
      rw [sums_add, if_neg]
      rintro ⟨heq, -⟩
      exact hfirst (List.mem_map.mpr ⟨(i, g), hmem, heq.symm⟩)

end Accumulator

/-! ### The last layer -/

namespace Stack

variable {s : Stack} {c : Cell}

variable {p : StatePools} {handles : List Handle} {h : Handle} {state : CellState}

theorem finalGradient_eq (hc : s.layers.getLast? = some c) (hlen : handles.length = s.layers.length)
    (hh : handles.getLast? = some h) (hstate : p.get (s.layers.length - 1) h = .ok state) (dHidden : Vec) :
    s.finalGradient p handles dHidden = .ok ((c.gradient state dHidden).map fun u => (s.finalOffset + u.1, u.2)) := by
  unfold finalGradient
  rw [hlen, expectSize_ok, hc, hh]
  dsimp only [bind, Except.bind]
  rw [hstate]
  rfl

/-- **`finalGradient` visits each parameter of the last layer at most once.** With a state of the last layer `c` for
the last handle, it succeeds with a list `visits` of places and derivatives. The places are without duplicates, from
`s.finalOffset` on and below `s.parameterCount`, and the visits are exactly the derivative `dz` at the bias of each
unit that `Derives` it, and `dz * x` at each weight whose input `x` is not zero. An accumulator `a` of all parameters
adds the square of each finite derivative to the sum of its place, and leaves all other sums as they were. -/
theorem finalGradient_once (hc : s.layers.getLast? = some c) (hlen : handles.length = s.layers.length)
    (hh : handles.getLast? = some h) (hstate : p.get (s.layers.length - 1) h = .ok state)
    (hshape : state.OfLayer c) (dHidden : Vec) :
    ∃ visits, s.finalGradient p handles dHidden = .ok visits ∧
      (visits.map Prod.fst).Nodup ∧
      (∀ u ∈ visits, s.finalOffset ≤ u.1 ∧ u.1 < s.parameterCount) ∧
      (∀ u, u ∈ visits ↔ ∃ gate k dz, c.Derives state dHidden gate k dz ∧
        (u = (s.finalOffset + c.biasPlace gate k, dz) ∨
          ∃ col x, state.intake[col]? = some x ∧ (x == 0) = false ∧
            u = (s.finalOffset + c.weightPlace gate k col, dz * x))) ∧
      ∀ a : Accumulator, a.parameterCount = s.parameterCount →
        (∀ early u late, visits = early ++ u :: late → u.1 < (a.addAll early).parameterCount) ∧
        (∀ i g, (i, g) ∈ visits → g.isFinite = true →
          (a.addAll visits).sums[i]? = a.sums[i]?.map (· + g * g)) ∧
        ∀ i, (∀ g, (i, g) ∈ visits → g.isFinite = false) → (a.addAll visits).sums[i]? = a.sums[i]? := by
  have hnodup : (((c.gradient state dHidden).map fun u => (s.finalOffset + u.1, u.2)).map Prod.fst).Nodup := by
    rw [List.map_map]
    have hplaces := (Cell.nodup_gradient hshape dHidden).map (f := (s.finalOffset + ·)) fun _ _ => Nat.add_left_cancel
    rwa [List.map_map] at hplaces
  have hrange : ∀ u ∈ (c.gradient state dHidden).map fun u => (s.finalOffset + u.1, u.2),
      s.finalOffset ≤ u.1 ∧ u.1 < s.parameterCount := by
    intro u hu
    obtain ⟨v, hv, rfl⟩ := List.mem_map.mp hu
    rw [parameterCount_eq hc]
    exact ⟨Nat.le_add_right _ _, Nat.add_lt_add_left (Cell.lt_of_mem_gradient hshape hv) _⟩
  refine ⟨_, finalGradient_eq hc hlen hh hstate dHidden, hnodup, hrange, fun u => ?_, fun a ha => ⟨?_, ?_, ?_⟩⟩
  · rw [List.mem_map]
    constructor
    · rintro ⟨v, hv, rfl⟩
      obtain ⟨gate, k, dz, hdz, rfl | ⟨col, x, hx, hne, rfl⟩⟩ := Cell.mem_gradient_iff.mp hv
      · exact ⟨gate, k, dz, hdz, .inl rfl⟩
      · exact ⟨gate, k, dz, hdz, .inr ⟨col, x, hx, hne, rfl⟩⟩
    · rintro ⟨gate, k, dz, hdz, rfl | ⟨col, x, hx, hne, rfl⟩⟩
      · exact ⟨_, Cell.mem_gradient_iff.mpr ⟨gate, k, dz, hdz, .inl rfl⟩, rfl⟩
      · exact ⟨_, Cell.mem_gradient_iff.mpr ⟨gate, k, dz, hdz, .inr ⟨col, x, hx, hne, rfl⟩⟩, rfl⟩
  · intro early u late heq
    show u.1 < (a.addAll early).sums.size
    rw [Accumulator.size_addAll]
    refine Nat.lt_of_lt_of_eq (hrange u ?_).2 ha.symm
    rw [heq]
    exact List.mem_append_right early List.mem_cons_self
  · exact fun i g hmem hg => Accumulator.sums_addAll_of_mem hnodup hmem hg
  · exact fun i habsent => Accumulator.sums_addAll_of_absent habsent

/-- The state of a layer that has taken in a one and a zero. -/
def stirred : CellState := { CellState.initial 1 1 with intake := #[1, 0] }

/-- Pools with a state for each of two layers. -/
def stirredPools : StatePools :=
  ⟨[⟨"controller state pool", #[⟨0, some (.initial 1 1)⟩], []⟩, ⟨"controller state pool", #[⟨0, some stirred⟩], []⟩]⟩

/-- Where a loss grows without bounds no derivative is zero: an output gate has one by the weight of the one it took
in, and one by its bias. -/
theorem finalGradient_once_stirred : ∃ visits dz,
    StatePools.narrow.finalGradient stirredPools [⟨0, 0⟩, ⟨0, 0⟩] #[Single.infinity] = .ok visits ∧
      (visits.map Prod.fst).Nodup ∧ (∀ u ∈ visits, 12 ≤ u.1 ∧ u.1 < 24) ∧
      (12 + 3 * 2, dz * 1) ∈ visits ∧ (12 + (4 * 2 + 3), dz) ∈ visits := by
  have hstate : stirredPools.get 1 ⟨0, 0⟩ = .ok stirred := rfl
  have hlen : [(⟨0, 0⟩ : Handle), ⟨0, 0⟩].length = StatePools.narrow.layers.length := rfl
  obtain ⟨visits, hvisits, hnodup, hrange, hmem, -⟩ :=
    finalGradient_once rfl hlen rfl hstate ⟨rfl, rfl, rfl, rfl, rfl⟩ #[Single.infinity]
  obtain ⟨dz, hdz⟩ : ∃ dz, Cell.Derives ⟨1, 1, Tensor.ofFn (4 * 1) (wrap (1 + 1)) fun _ _ => 0, Vec.zeros 4⟩
      stirred #[Single.infinity] .output 0 dz := by
    refine ⟨_, Nat.one_pos, ?_, Single.infinity, rfl, rfl, rfl⟩
    have hgrown := Single.isFinite_mul_eq_false (rfl : Single.infinity.isFinite = false)
    exact Single.beq_zero_eq_false (Single.isFinite_mul_eq_false (Single.isFinite_mul_eq_false (hgrown _) _) _)
  exact ⟨visits, dz, hvisits, hnodup, hrange, (hmem _).mpr ⟨.output, 0, dz, hdz, .inr ⟨0, 1, rfl, rfl, rfl⟩⟩,
    (hmem _).mpr ⟨.output, 0, dz, hdz, .inl rfl⟩⟩

end Stack

end NpcMind
