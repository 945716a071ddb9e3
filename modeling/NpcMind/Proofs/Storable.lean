import NpcMind.Proofs.Cadence
import NpcMind.Proofs.Gradients
import NpcMind.Proofs.Overflow
import NpcMind.Proofs.Sparsification

/-!
# Which samples make a task

A derivative that is not finite is never sampled, but the square of a finite one may overflow, and so may a sum of
squares. No sum is ever negative or a NaN, so an infinite sum is all that can be wrong with a table. There it is an
average above every minimum but infinity, and no density leaves out all of them. So a table with such a sum is
refused, an agent that consolidates then keeps nothing of its samples, and every other table makes a task.

Derivatives below the 51st power of two have squares that are lost in the rounding of a sum before it overflows.
-/

namespace NpcMind

open Outcome

/-! ### Amounts -/

namespace Single

open Float.Model Float.Model.UnpackedFloat

variable {x y : Float32}

/-- A number without a sign that is no NaN. -/
def Amount (x : Float32) : Prop := Unsigned x ∧ x.isNaN = false

theorem amount_zero : Amount 0 := ⟨unsigned_zero, rfl⟩

theorem Amount.cases (h : Amount x) : x.isFinite = true ∨ x.toModel.unpack = .infinity .positive := by
  have hsign := signOf_unpack h.1
  have hnan := isNaN_eq_false.mp h.2
  cases hx : x.toModel.unpack with
  | notANumber => exact absurd hx hnan
  | zero s => exact .inl (isFinite_iff.mpr (.inl ⟨s, hx⟩))
  | finite s m e hm => exact .inl (isFinite_iff.mpr (.inr ⟨s, m, e, hm, hx⟩))
  | infinity s =>
    rw [hx] at hsign
    obtain rfl : s = .positive := hsign
    exact .inr rfl

theorem Amount.infinite (h : Amount x) (hx : x.isFinite = false) : x.toModel.unpack = .infinity .positive :=
  h.cases.resolve_left (by rw [hx]; decide)

theorem Amount.nonneg (h : Amount x) : 0 ≤ x := by
  have hsign := signOf_unpack h.1
  rw [le_iff_height rfl h.2]
  show 0 ≤ level x.toModel.unpack
  rw [level, hsign]
  cases hx : x.toModel.unpack with
  | finite s m e hm =>
    have hle := (bounds_of_unpack hx).1
    simp only [reach]
    omega
  | _ => simp only [reach]; decide

theorem Amount.add (hx : Amount x) (hy : Amount y) : Amount (x + y) := by
  refine ⟨unsigned_add hx.1 hy.1, ?_⟩
  rcases hy.cases with hfinite | hinfinite
  · exact isNaN_add hx.2 hfinite
  · refine isNaN_pack (u := UnpackedFloat.add .binary32 x.toModel.unpack y.toModel.unpack) ?_
    rw [hinfinite]
    rcases hx.cases with hx | hx
    · obtain ⟨s, hx⟩ | ⟨s, m, e, hm, hx⟩ := isFinite_iff.mp hx <;> rw [hx] <;> exact UnpackedFloat.noConfusion
    · rw [hx]
      exact UnpackedFloat.noConfusion

theorem amount_mul_self (h : x.isFinite = true) : Amount (x * x) := by
  refine ⟨unsigned_mul_self x, isNaN_pack ?_⟩
  obtain ⟨s, hx⟩ | ⟨s, m, e, hm, hx⟩ := isFinite_iff.mp h <;> rw [hx]
  · exact UnpackedFloat.noConfusion
  · exact round_ne .binary32 _ _ _ _

theorem amount_foldl {l : List Float32} (hx : Amount x) (h : ∀ y ∈ l, Amount y) : Amount (l.foldl (· + ·) x) := by
  induction l generalizing x with
  | nil => exact hx
  | cons y l ih =>
    refine ih (hx.add (h y List.mem_cons_self)) fun z hz => h z (List.mem_cons_of_mem y hz)

/-- However many small numbers are added up, they do not overflow. -/
theorem isFinite_foldl_of_below {l : List Float32} (hx : x.isFinite = true) (h : ∀ y ∈ l, Below 79 y) :
    (l.foldl (· + ·) x).isFinite = true := by
  induction l generalizing x with
  | nil => exact hx
  | cons y l ih =>
    refine ih (isFinite_add_of_below hx (h y List.mem_cons_self)) fun z hz => h z (List.mem_cons_of_mem y hz)

end Single

/-- A table of the right size whose entries have their places is refused for its values alone. -/
theorem FisherTable.validate_error {t : FisherTable Float32} {count : ℕ} (hcount : t.parameterCount = count)
    (hplaces : ∀ e ∈ t.entries, e.1 < count) (h : t.validate count ≠ .ok ()) :
    t.validate count = .error (.nonFinite "fisher table") := by
  unfold FisherTable.validate at h ⊢
  dsimp only at h ⊢
  rw [if_neg (not_not.mpr hcount)] at h ⊢
  cases hlast : t.entries.getLast? with
  | none =>
    simp only [hlast] at h ⊢
    split
    · rfl
    · next hvalues => exact absurd (if_neg hvalues) h
  | some last =>
    have hplace : ¬ count ≤ last.1 := Nat.not_le.mpr (hplaces last (List.mem_of_getLast? hlast))
    simp only [hlast, if_neg hplace] at h ⊢
    split
    · rfl
    · next hvalues => exact absurd (if_neg hvalues) h

/-! ### Samples -/

namespace Accumulator

variable {P i : ℕ} {a : Accumulator} {minFisher maxDensity : Float32}

/-- What happens to an accumulator before a table is made. -/
inductive Step where
  | add (i : ℕ) (g : Float32)
  | endSample

/-- What a step adds to the sum of a parameter. -/
def Step.square? (i : ℕ) : Step → Option Float32
  | .add j g => if j = i ∧ g.isFinite = true then some (g * g) else none
  | .endSample => none

/-- How many samples a step completes. -/
def Step.completed : Step → ℕ
  | .add .. => 0
  | .endSample => 1

/-- One step. -/
def step (a : Accumulator) : Step → Accumulator
  | .add i g => a.add i g
  | .endSample => a.endSample

/-- A sequence of steps. -/
def run (a : Accumulator) (steps : List Step) : Accumulator := steps.foldl step a

/-- The sum of the squares of the finite derivatives by a parameter. -/
def squares (i : ℕ) (steps : List Step) : Float32 := (steps.filterMap (Step.square? i)).foldl (· + ·) 0

theorem Step.square?_eq_some {s : Step} {y : Float32} :
    s.square? i = some y ↔ ∃ g, s = .add i g ∧ g.isFinite = true ∧ g * g = y := by
  cases s with
  | endSample => simp [Step.square?]
  | add j g =>
    simp only [Step.square?, Option.ite_none_right_eq_some, Step.add.injEq, Option.some.injEq]
    constructor
    · rintro ⟨⟨rfl, hg⟩, rfl⟩
      exact ⟨g, ⟨rfl, rfl⟩, hg, rfl⟩
    · rintro ⟨_, ⟨rfl, rfl⟩, hg, rfl⟩
      exact ⟨⟨rfl, hg⟩, rfl⟩

theorem sums_step (a : Accumulator) (s : Step) (i : ℕ) :
    (a.step s).sums[i]? = a.sums[i]?.map fun x => (s.square? i).elim x (x + ·) := by
  cases s with
  | endSample => exact Option.map_id'.symm
  | add j g =>
    refine (sums_add a j g i).trans ?_
    by_cases h : j = i ∧ g.isFinite = true
    · simp only [Step.square?, if_pos h, Option.elim_some]
    · simp only [Step.square?, if_neg h, Option.elim_none, Option.map_id']

theorem sums_run (a : Accumulator) (steps : List Step) (i : ℕ) :
    (a.run steps).sums[i]? = a.sums[i]?.map fun x => (steps.filterMap (Step.square? i)).foldl (· + ·) x := by
  induction steps generalizing a with
  | nil => exact Option.map_id'.symm
  | cons s steps ih =>
    refine (ih (a.step s)).trans ?_
    rw [sums_step, Option.map_map, List.filterMap_cons]
    cases s.square? i <;> rfl

theorem samples_run (a : Accumulator) (steps : List Step) :
    (a.run steps).samples = a.samples + UInt32.ofNat (steps.map Step.completed).sum := by
  induction steps generalizing a with
  | nil => exact (UInt32.add_zero _).symm
  | cons s steps ih =>
    refine (ih (a.step s)).trans ?_
    have hstep : (a.step s).samples = a.samples + UInt32.ofNat s.completed := by
      cases s with
      | endSample => rfl
      | add j g =>
        refine Eq.trans ?_ (UInt32.add_zero _).symm
        show (a.add j g).samples = _
        unfold Accumulator.add
        split <;> rfl
    rw [hstep, UInt32.add_assoc, List.map_cons, List.sum_cons, UInt32.ofNat_add]

theorem parameterCount_step (a : Accumulator) (s : Step) : (a.step s).parameterCount = a.parameterCount := by
  cases s with
  | endSample => rfl
  | add j g =>
    show (a.add j g).sums.size = a.sums.size
    unfold Accumulator.add
    split
    · exact Array.size_modify
    · rfl

theorem parameterCount_run (a : Accumulator) (steps : List Step) : (a.run steps).parameterCount = a.parameterCount := by
  induction steps generalizing a with
  | nil => rfl
  | cons s steps ih => exact (ih (a.step s)).trans (a.parameterCount_step s)

/-- The sums of an accumulator that started without samples. -/
theorem sums_run_ofCount (steps : List Step) (hi : i < P) :
    ((ofCount P).run steps).sums[i]? = some (squares i steps) := by
  rw [sums_run, ofCount, Vec.zeros, Array.getElem?_replicate, if_pos hi]
  rfl

theorem getD_sums_run (steps : List Step) (hi : i < P) : ((ofCount P).run steps).sums.getD i 0 = squares i steps := by
  rw [Array.getD_eq_getD_getElem?, sums_run_ofCount steps hi, Option.getD_some]

theorem parameterCount_run_ofCount (P : ℕ) (steps : List Step) : ((ofCount P).run steps).parameterCount = P := by
  rw [parameterCount_run]
  exact Array.size_replicate

theorem samples_run_ofCount (P : ℕ) (steps : List Step) :
    ((ofCount P).run steps).samples = UInt32.ofNat (steps.map Step.completed).sum := by
  rw [samples_run]
  exact UInt32.zero_add _

theorem amount_squares (i : ℕ) (steps : List Step) : Single.Amount (squares i steps) := by
  refine Single.amount_foldl Single.amount_zero fun y hy => ?_
  obtain ⟨s, -, hs⟩ := List.mem_filterMap.mp hy
  obtain ⟨g, -, hg, rfl⟩ := Step.square?_eq_some.mp hs
  exact Single.amount_mul_self hg

theorem amount_sums_run (P : ℕ) (steps : List Step) (i : ℕ) :
    Single.Amount (((ofCount P).run steps).sums.getD i 0) := by
  by_cases hi : i < P
  · rw [getD_sums_run steps hi]
    exact amount_squares i steps
  · have hsize : ((ofCount P).run steps).sums.size ≤ i :=
      (parameterCount_run_ofCount P steps).trans_le (Nat.le_of_not_lt hi)
    rw [Array.getD_eq_getD_getElem?, Array.getElem?_eq_none hsize]
    exact Single.amount_zero

/-- Derivatives below the 51st power of two can be added up without end. -/
theorem isFinite_squares {steps : List Step} (h : ∀ g, .add i g ∈ steps → g.isFinite = true →
    -2251799813685248 < g ∧ g < 2251799813685248) : (squares i steps).isFinite = true := by
  refine Single.isFinite_foldl_of_below rfl fun y hy => ?_
  obtain ⟨s, hmem, hs⟩ := List.mem_filterMap.mp hy
  obtain ⟨g, rfl, hg, rfl⟩ := Step.square?_eq_some.mp hs
  obtain ⟨hlo, hhi⟩ := h g hmem hg
  have hsmall : Single.Below 27 g := Single.below_of_between (by decide) hlo hhi rfl rfl
  exact hsmall.mul hsmall (by decide) (by decide)

/-! ### Tables -/

/-- A table with that minimum would have an infinite entry. -/
def Overflows (a : Accumulator) (minFisher : Float32) : Prop :=
  a.samples ≠ 0 ∧ minFisher < Single.infinity ∧ ∃ i < a.parameterCount, (a.sums.getD i 0).isFinite = false

theorem lt_mean_iff (hs : a.samples ≠ 0) (hi : (a.sums.getD i 0).toModel.unpack = .infinity .positive) :
    minFisher < a.mean i ↔ minFisher < Single.infinity := by
  rw [Single.lt_iff_compare, Single.lt_iff_compare, mean, Single.unpack_average hs hi]
  rfl

theorem not_precedes_of_infinite {x y : Float32} (hx : x.toModel.unpack = .infinity .positive) :
    ¬ Single.Precedes x y := by
  rintro (hlt | ⟨rfl, -⟩)
  · exact Single.not_lt_of_infinite hx hlt
  · cases hx

theorem mean_nonneg (hs : a.samples ≠ 0) (hi : Single.Amount (a.sums.getD i 0))
    (hfinite : (a.sums.getD i 0).isFinite = true) : (a.mean i).isFinite = true ∧ 0 ≤ a.mean i := by
  have hmean : (a.mean i).isFinite = true := Single.isFinite_average hs hfinite
  refine ⟨hmean, Single.le_of_not_lt rfl (Single.isNaN_of_isFinite hmean) fun hneg => ?_⟩
  obtain ⟨-, hscale⟩ | ⟨hsum, -⟩ := Single.neg_of_mul hneg
  · exact Single.lt_asymm hscale (Single.one_div_toFloat32 hs).1
  · exact Single.not_lt_of_le hi.nonneg hsum

/-- An infinite average is not left out, unless for another one. -/
theorem exists_infinite_kept (hi : i ∈ a.candidates minFisher)
    (hinfinite : (a.mean i).toModel.unpack = .infinity .positive) (maxDensity : Float32) :
    ∃ j ∈ a.kept minFisher maxDensity, (a.mean j).isFinite = false := by
  have hnot : (a.mean i).isFinite = false := by
    rw [← Bool.not_eq_true, Single.isFinite_iff, hinfinite]
    rintro (⟨_, h⟩ | ⟨_, _, _, _, h⟩) <;> cases h
  by_cases hkept : i ∈ a.kept minFisher maxDensity
  · exact ⟨i, hkept, hnot⟩
  obtain ⟨j, hj⟩ : ∃ j, j ∈ a.kept minFisher maxDensity := by
    refine List.exists_mem_of_length_pos ?_
    have hlen := List.length_pos_of_mem ((a.ranking_perm minFisher).mem_iff.mpr hi)
    rw [kept, List.length_take, cap]
    omega
  rcases outranks_dropped hj hi hkept with hprecedes | ⟨heq, -⟩
  · exact absurd hprecedes (not_precedes_of_infinite hinfinite)
  · exact ⟨j, hj, heq ▸ hnot⟩

theorem candidate_of_mem_finish {e : ℕ × Float32} (he : e ∈ (a.finish minFisher maxDensity).entries) :
    a.samples ≠ 0 ∧ ∃ i ∈ a.candidates minFisher, e = (Sparse.key i, a.mean i) := by
  obtain ⟨hs, i, x, hx, hlt, rfl⟩ := of_mem_finish he
  have hmean : a.mean i = x * (1 / a.samples.toFloat32) := by
    rw [mean, Array.getD_eq_getD_getElem?, hx, Option.getD_some]
  rw [← hmean] at hlt ⊢
  obtain ⟨hi, -⟩ := Array.getElem?_eq_some_iff.mp hx
  exact ⟨hs, i, List.mem_filter.mpr ⟨List.mem_range.mpr hi, decide_eq_true hlt⟩, rfl⟩

theorem lt_of_mem_finish {e : ℕ × Float32} (he : e ∈ (a.finish minFisher maxDensity).entries) :
    e.1 < a.parameterCount := by
  obtain ⟨-, i, hi, rfl⟩ := candidate_of_mem_finish he
  exact Nat.lt_of_le_of_lt (Sparse.key_le i) (List.mem_range.mp (List.mem_filter.mp hi).1)

theorem suits_finish (ha : ∀ i, Single.Amount (a.sums.getD i 0)) (maxDensity : Float32)
    (hover : ¬ a.Overflows minFisher) : (a.finish minFisher maxDensity).Suits a.parameterCount := by
  refine ⟨rfl, fun e he => lt_of_mem_finish he, fun e he => ?_⟩
  obtain ⟨hs, i, hi, rfl⟩ := candidate_of_mem_finish he
  have hfinite : (a.sums.getD i 0).isFinite = true := by
    by_contra hnot
    rw [Bool.not_eq_true] at hnot
    refine hover ⟨hs, ?_, i, List.mem_range.mp (List.mem_filter.mp hi).1, hnot⟩
    exact (lt_mean_iff hs ((ha i).infinite hnot)).mp (lt_of_mem_candidates hi)
  exact mean_nonneg hs (ha i) hfinite

/-- As long as no two parameters share a key, an infinite average is in the table. -/
theorem not_suits_finish (ha : ∀ i, Single.Amount (a.sums.getD i 0)) (maxDensity : Float32)
    (hP : a.parameterCount ≤ UInt32.size) (hover : a.Overflows minFisher) :
    ¬ (a.finish minFisher maxDensity).Suits a.parameterCount := by
  intro hsuits
  obtain ⟨hs, hmin, i, hi, hinfinite⟩ := hover
  have hinfinite := (ha i).infinite hinfinite
  have hcandidate : i ∈ a.candidates minFisher :=
    List.mem_filter.mpr ⟨List.mem_range.mpr hi, decide_eq_true ((lt_mean_iff hs hinfinite).mpr hmin)⟩
  obtain ⟨j, hj, hnot⟩ := exists_infinite_kept hcandidate (Single.unpack_average hs hinfinite) maxDensity
  have hentry := (entries_finish_perm hs hP minFisher maxDensity).mem_iff.mpr (List.mem_map_of_mem hj)
  rw [(hsuits.values _ hentry).1] at hnot
  cases hnot

theorem validate_finish_iff (minFisher maxDensity : Float32) :
    (a.finish minFisher maxDensity).validate a.parameterCount = .ok () ↔
      (a.finish minFisher maxDensity).Suits a.parameterCount :=
  FisherTable.validate_iff (a.ascending_finish minFisher maxDensity)

/-- **A table is refused** for an infinite entry alone. -/
theorem validate_finish (minFisher maxDensity : Float32) :
    (a.finish minFisher maxDensity).validate a.parameterCount = .ok () ∨
      (a.finish minFisher maxDensity).validate a.parameterCount = .error (.nonFinite "fisher table") :=
  or_iff_not_imp_left.mpr (FisherTable.validate_error rfl fun _ he => lt_of_mem_finish he)

theorem overflows_run_iff (P : ℕ) (steps : List Step) (minFisher : Float32) :
    ((ofCount P).run steps).Overflows minFisher ↔
      UInt32.ofNat (steps.map Step.completed).sum ≠ 0 ∧ minFisher < Single.infinity ∧
        ∃ i < P, (squares i steps).isFinite = false := by
  rw [Overflows, parameterCount_run_ofCount, samples_run_ofCount]
  refine and_congr_right fun _ => and_congr_right fun _ => exists_congr fun i => and_congr_right fun hi => ?_
  rw [getD_sums_run steps hi]

end Accumulator

/-! ### Tasks -/

namespace Consolidator

variable {k : Consolidator} {optimal : Vec} {fisher : FisherTable Float32}

theorem consolidate_of_refused {e : Error} (hoptimal : optimal.size = k.parameterCount)
    (hvalid : fisher.validate k.parameterCount = .error e) (id : Uuid) (name : String) (importance : Float32)
    (tick : UInt64) : k.consolidate id name optimal fisher importance tick = .error e := by
  unfold consolidate
  dsimp only
  rw [if_neg (not_not.mpr hoptimal), hvalid]
  rfl

end Consolidator

namespace Agent

variable {a : Agent} {stack : Stack} {c : Config.Consolidation}

theorem consolidated_of_refused {e : Error} (hcontroller : a.controller = some stack)
    (hcount : stack.flatten.size = a.consolidator.parameterCount)
    (hvalid : (a.accumulator.finish c.minFisher c.maxDensity).validate a.consolidator.parameterCount = .error e)
    (taskId : Uuid) : a.consolidated c taskId = a.consolidator := by
  unfold consolidated
  simp only [hcontroller, Consolidator.consolidate_of_refused hcount hvalid, ite_self]

end Agent

namespace Accumulator

/-- **A table makes a task exactly if no sum of squares overflows.** After any `steps`, `a.sums[i]?` is the sum
`squares i steps` of the squares of the finite derivatives by the parameter `i`. Unless one of these sums `overflows`
above `minFisher`, `FisherTable.validate` accepts `table`, every consolidator of `P` parameters stores it, and an
agent's `consolidate` appends it to the tasks. If one `overflows`, and up to `2 ^ 32` parameters, `validate` refuses
`table`, and an agent's `consolidate` keeps its consolidator and empties its accumulator. No sum overflows if every
finite derivative in `steps` is below `2 ^ 51`. -/
theorem finish_storable_iff (P : ℕ) (steps : List Step) (minFisher maxDensity : Float32) :
    let a := (ofCount P).run steps
    let table := a.finish minFisher maxDensity
    let overflows := a.samples ≠ 0 ∧ minFisher < Single.infinity ∧ ∃ i < P, (squares i steps).isFinite = false
    (P < 4294967296 → allocate P = .ok (ofCount P)) ∧
    a.samples = UInt32.ofNat (steps.map Step.completed).sum ∧
    (∀ i < P, a.sums[i]? = some (squares i steps)) ∧
    (¬ overflows → table.validate P = .ok ()) ∧
    (table.validate P = .ok () ∨ table.validate P = .error (.nonFinite "fisher table")) ∧
    (P ≤ UInt32.size → overflows → table.validate P = .error (.nonFinite "fisher table")) ∧
    (∀ (k : Consolidator) (id : Uuid) (name : String) (optimal : Vec) (importance : Float32) (tick : UInt64),
      k.parameterCount = P → optimal.size = P →
      (¬ overflows → ∃ pruned k' task, k.consolidate id name optimal table importance tick = .ok (pruned, k') ∧
        k'.tasks.getLast? = some task ∧ task.optimal = optimal ∧ task.fisher = table) ∧
      (P ≤ UInt32.size → overflows →
        k.consolidate id name optimal table importance tick = .error (.nonFinite "fisher table"))) ∧
    (∀ (agent : Agent) (stack : Stack) (c : Config.Consolidation) (taskId : Uuid), agent.accumulator = a →
      a.samples ≠ 0 → agent.controller = some stack → stack.flatten.size = P → agent.consolidator.parameterCount = P →
      let later := agent.consolidate { c with minFisher, maxDensity } taskId
      later.accumulator = ofCount P ∧
      (¬ overflows → later.consolidator.consolidations = agent.consolidator.consolidations + 1 ∧ ∃ task,
        later.consolidator.tasks.getLast? = some task ∧ task.optimal = stack.flatten ∧ task.fisher = table) ∧
      (P ≤ UInt32.size → overflows → later.consolidator = agent.consolidator)) ∧
    ((∀ i g, .add i g ∈ steps → g.isFinite = true → -2251799813685248 < g ∧ g < 2251799813685248) → ¬ overflows) := by
  intro a table overflows
  have hcount : a.parameterCount = P := parameterCount_run_ofCount P steps
  have hover : a.Overflows minFisher ↔ overflows := by
    rw [overflows_run_iff, ← samples_run_ofCount P steps]
  have hamounts := amount_sums_run P steps
  have hvalid (h : ¬ overflows) : table.validate P = .ok () := by
    have hsuits := suits_finish hamounts maxDensity (mt hover.mp h)
    rw [← hcount]
    exact (validate_finish_iff minFisher maxDensity).mpr hsuits
  have hcases : table.validate P = .ok () ∨ table.validate P = .error (.nonFinite "fisher table") := by
    rw [← hcount]
    exact validate_finish minFisher maxDensity
  have hrefused (hP : P ≤ UInt32.size) (h : overflows) : table.validate P = .error (.nonFinite "fisher table") := by
    refine hcases.resolve_left fun hok => ?_
    rw [← hcount] at hP hok
    exact not_suits_finish hamounts maxDensity hP (hover.mpr h) ((validate_finish_iff minFisher maxDensity).mp hok)
  refine ⟨fun hP => ?_, samples_run_ofCount P steps, fun i hi => sums_run_ofCount steps hi, hvalid, hcases, hrefused,
    fun k id name optimal importance tick hk hoptimal => ?_, ?_, ?_⟩
  · have hroom : P * 4 < UInt64.size / 2 := by
      show P * 4 < 9223372036854775808
      omega
    unfold allocate requireRoom
    rw [if_pos hroom]
    rfl
  · subst hk
    exact ⟨fun h => Consolidator.consolidate_of_validate hoptimal (hvalid h) id name importance tick,
      fun hP h => Consolidator.consolidate_of_refused hoptimal (hrefused hP h) id name importance tick⟩
  · rintro agent stack c taskId haccumulator hsamples hcontroller hstack hk later
    subst hk
    refine ⟨?_, fun h => ?_, fun hP h => ?_⟩
    · show agent.accumulator.reset = _
      rw [haccumulator, reset, hcount]
    · have hok := Agent.consolidated_of_validate (a := agent) (c := { c with minFisher, maxDensity }) hcontroller
        (by rwa [haccumulator]) hstack (by rw [haccumulator]; exact hvalid h) taskId
      rw [haccumulator] at hok
      exact hok
    · exact Agent.consolidated_of_refused (a := agent) (c := { c with minFisher, maxDensity }) hcontroller hstack
        (by rw [haccumulator]; exact hrefused hP h) taskId
  · rintro hsmall ⟨-, -, i, -, hinfinite⟩
    rw [isFinite_squares (hsmall i)] at hinfinite
    cases hinfinite

/-- The square of a large derivative is infinite, and its table is refused. -/
theorem finish_not_storable :
    let steps : List Step := [.add 0 1, .add 1 1e20, .endSample]
    (1e20 : Float32).isFinite = true ∧
      (((ofCount 4).run steps).finish 1e-8 1).validate 4 = .error (.nonFinite "fisher table") := by
  intro steps
  have hover : ((ofCount 4).run steps).samples ≠ 0 ∧ (1e-8 : Float32) < Single.infinity ∧
      ∃ i < 4, (squares i steps).isFinite = false := ⟨by decide, by decide, 1, by decide, by decide⟩
  obtain ⟨-, -, -, -, -, hrefused, -⟩ := finish_storable_iff 4 steps 1e-8 1
  exact ⟨by decide, hrefused (by decide) hover⟩

end Accumulator

end NpcMind
