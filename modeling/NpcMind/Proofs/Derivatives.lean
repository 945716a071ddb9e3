import Mathlib.Algebra.BigOperators.Fin
import Mathlib.Algebra.BigOperators.Ring.List
import Mathlib.Tactic.Ring
import NpcMind.Proofs.TaskList

/-!
# The derivative of the penalty

The penalty and its gradient are two loops over the same entries. One adds up squares, the other one multiples of
differences, at places that several tasks may share. Where arithmetic is exact, the second is the derivative of the
first: moving the parameters changes the penalty by the gradient times the move, and by the penalty's own square of
the move beyond that. Nothing is asked of the entries but that there is a parameter for each.
-/

namespace NpcMind

open Outcome

/-! ### Loops that add up -/

section Sums

variable {α β γ : Type} [AddCommMonoid α]

/-- A loop whose every turn adds a term adds up all of them. -/
theorem foldl_adds (value : γ → α) (term : β → α) {turn : γ → β → γ}
    (hturn : ∀ x b, value (turn x b) = value x + term b) (l : List β) (x : γ) :
    value (l.foldl turn x) = value x + (l.map term).sum := by
  induction l generalizing x with
  | nil => simp
  | cons b rest ih => rw [List.foldl_cons, ih, hturn, List.map_cons, List.sum_cons, add_assoc]

/-- What is added at a place. -/
def addedAt (updates : List (Nat × α)) (i : Nat) : α := (updates.map fun u => if u.1 = i then u.2 else 0).sum

theorem addedAt_of_absent {updates : List (Nat × α)} {i : Nat} (h : ∀ u ∈ updates, u.1 ≠ i) :
    addedAt updates i = 0 := by
  refine List.sum_eq_zero fun x hx => ?_
  obtain ⟨u, hu, rfl⟩ := List.mem_map.mp hx
  exact if_neg (h u hu)

theorem addedAt_cons (u : Nat × α) (updates : List (Nat × α)) (i : Nat) :
    addedAt (u :: updates) i = (if u.1 = i then u.2 else 0) + addedAt updates i := by
  rw [addedAt, List.map_cons, List.sum_cons]
  rfl

/-- A vector to which updates are added one by one has grown at each place by what was added there. -/
theorem getElem?_foldl_modify (updates : List (Nat × α)) (n : Nat) (xs : Array α) (i : Nat) :
    (updates.foldl (fun g u => (g.1 + 1, g.2.modify u.1 (· + u.2))) (n, xs)).2[i]? =
      xs[i]?.map (· + addedAt updates i) := by
  induction updates generalizing n xs with
  | nil => simp [addedAt]
  | cons u rest ih =>
    rw [List.foldl_cons, ih, Array.getElem?_modify, addedAt_cons]
    by_cases hu : u.1 = i
    · rw [if_pos hu, if_pos hu, Option.map_map]
      refine congrArg (Option.map · xs[i]?) (funext fun x => ?_)
      exact add_assoc x u.2 _
    · rw [if_neg hu, if_neg hu, zero_add]

end Sums

section Moves

variable {α : Type} [CommRing α]

/-- A vector moved by another. -/
def moved (xs ys : Array α) : Array α := Array.zipWith (· + ·) xs ys

theorem size_moved {xs ys : Array α} (h : ys.size = xs.size) : (moved xs ys).size = xs.size := by
  rw [moved, Array.size_zipWith, h, Nat.min_self]

theorem getD_moved {xs ys : Array α} (h : ys.size = xs.size) (i : Nat) :
    (moved xs ys).getD i 0 = xs.getD i 0 + ys.getD i 0 := by
  simp only [moved, Array.getD_eq_getD_getElem?, Array.getElem?_zipWith]
  by_cases hi : i < xs.size
  · rw [Array.getElem?_eq_getElem hi, Array.getElem?_eq_getElem (h ▸ hi)]
    rfl
  · rw [Array.getElem?_eq_none (by omega), Array.getElem?_eq_none (by omega)]
    simp

/-- What is added to a vector of some length, place by place, times another vector. -/
theorem sum_addedAt_mul {updates : List (Nat × α)} {count : Nat} (h : ∀ u ∈ updates, u.1 < count) (ys : Array α) :
    ∑ i ∈ Finset.range count, addedAt updates i * ys.getD i 0 = (updates.map fun u => u.2 * ys.getD u.1 0).sum := by
  induction updates with
  | nil => simp [addedAt]
  | cons u rest ih =>
    have hhere : ∑ i ∈ Finset.range count, (if u.1 = i then u.2 else 0) * ys.getD i 0 = u.2 * ys.getD u.1 0 := by
      simp only [ite_mul, zero_mul]
      rw [Finset.sum_ite_eq, if_pos (Finset.mem_range.mpr (h u List.mem_cons_self))]
    simp only [addedAt_cons, add_mul, Finset.sum_add_distrib, List.map_cons, List.sum_cons]
    rw [hhere, ih fun v hv => h v (List.mem_cons_of_mem u hv)]

end Moves

/-! ### One task -/

namespace Task

variable {α : Type} [CommRing α] {t : Task α} {θ d : Array α} {lambda : α}

/-- The squares of a move, weighed by the entries. -/
def bend (t : Task α) (d : Array α) : α := (t.fisher.entries.map fun e => e.2 * d.getD e.1 0 ^ 2).sum

theorem drift_eq (t : Task α) (θ : Array α) :
    (t.drift θ).1 = (t.fisher.entries.map fun e => e.2 * t.offset θ e.1 * t.offset θ e.1).sum := by
  rw [drift, foldl_adds Prod.fst fun e => e.2 * t.offset θ e.1 * t.offset θ e.1]
  · exact zero_add _
  · exact fun _ _ => rfl

theorem offset_moved (h : d.size = θ.size) (i : Nat) : t.offset (moved θ d) i = t.offset θ i + d.getD i 0 := by
  rw [offset, offset, getD_moved h]
  ring

/-- **One task**: what a move adds to its part of the penalty. -/
theorem drift_moved (h : d.size = θ.size) : lambda * (t.importance * (t.drift (moved θ d)).1) =
    lambda * (t.importance * (t.drift θ).1) + ((t.gradient lambda θ).map fun u => u.2 * d.getD u.1 0).sum +
      lambda * (t.importance * t.bend d) := by
  simp only [drift_eq, bend, gradient, List.map_map, ← List.sum_map_mul_left, ← List.sum_map_add]
  refine congrArg List.sum (List.map_congr_left fun e _ => ?_)
  rw [offset_moved h, Function.comp_apply]
  ring

theorem drift_of_zero (h : ∀ e ∈ t.fisher.entries, e.2 = 0) (θ : Array α) : (t.drift θ).1 = 0 := by
  rw [drift_eq]
  refine List.sum_eq_zero fun x hx => ?_
  obtain ⟨e, he, rfl⟩ := List.mem_map.mp hx
  rw [h e he, zero_mul, zero_mul]

end Task

/-! ### All tasks -/

namespace Penalty

section Checked

variable {α : Type} [OfNat α 0] [OfNat α 2] [Add α] [Sub α] [Mul α]

/-- The penalty for parameters, of which there have to be enough. -/
def due (lambda : α) (tasks : List (Task α)) (current : Array α) : Outcome (PenaltyReport α) :=
  if tasks.all (·.covers current.size) then .ok (report lambda tasks current) else .error .outOfBounds

/-- The gradient of the penalty added to a vector of some length, and how many derivatives there were. -/
def addDue (count : Nat) (lambda : α) (tasks : List (Task α)) (current buffer : Array α) :
    Outcome (Nat × Array α) := do
  expectSize "penalty gradient" count buffer.size
  if tasks.all fun t => t.covers current.size && t.covers buffer.size then
    return addGradient lambda tasks current buffer
  else throw .outOfBounds

end Checked

variable {α : Type} [CommRing α] {tasks : List (Task α)} {count : Nat} {θ d : Array α} {lambda : α}

theorem value_report (lambda : α) (tasks : List (Task α)) (θ : Array α) :
    (report lambda tasks θ).value = (tasks.map fun t => lambda * (t.importance * (t.drift θ).1)).sum := by
  rw [List.sum_map_mul_left]
  refine congrArg (lambda * ·) ?_
  rw [drifts, foldl_adds Prod.fst fun t : Task α => t.importance * (t.drift θ).1]
  · exact zero_add _
  · exact fun _ _ => rfl

theorem report_nil (lambda : α) (θ : Array α) : report lambda [] θ = ⟨0, 0, 0⟩ :=
  congrArg (PenaltyReport.mk · 0 0) (mul_zero lambda)

/-- A task whose entries are all zero has no part in the penalty. -/
theorem value_append_of_zero {t : Task α} (h : ∀ e ∈ t.fisher.entries, e.2 = 0) (lambda : α)
    (front rear : List (Task α)) (θ : Array α) :
    (report lambda (front ++ t :: rear) θ).value = (report lambda (front ++ rear) θ).value := by
  simp only [value_report, List.map_append, List.map_cons, List.sum_append, List.sum_cons, t.drift_of_zero h,
    mul_zero, zero_add]

theorem gradient_cons (t : Task α) (tasks : List (Task α)) (θ : Array α) :
    gradient lambda (t :: tasks) θ = t.gradient lambda θ ++ gradient lambda tasks θ := rfl

/-- **All tasks**: what a move adds to the penalty. -/
theorem value_moved (h : d.size = θ.size) : (report lambda tasks (moved θ d)).value - (report lambda tasks θ).value =
    ((gradient lambda tasks θ).map fun u => u.2 * d.getD u.1 0).sum +
      lambda * (tasks.map fun t => t.importance * t.bend d).sum := by
  simp only [value_report]
  induction tasks with
  | nil => simp [gradient]
  | cons t rest ih =>
    simp only [List.map_cons, List.sum_cons, gradient_cons, List.map_append, List.sum_append, t.drift_moved h]
    linear_combination ih

theorem lt_of_mem_gradient (h : ∀ t ∈ tasks, t.Spans count) : ∀ u ∈ gradient lambda tasks θ, u.1 < count := by
  intro u hu
  obtain ⟨t, ht, hu⟩ := List.mem_flatMap.mp hu
  obtain ⟨e, he, rfl⟩ := List.mem_map.mp hu
  exact (h t ht).places e he

theorem due_ok (h : ∀ t ∈ tasks, t.Spans count) (hθ : θ.size = count) (lambda : α) :
    due lambda tasks θ = .ok (report lambda tasks θ) := by
  rw [due, hθ, if_pos (List.all_eq_true.mpr fun t ht => (h t ht).covers)]

/-- The gradient as a vector. -/
def gradientVector (count : Nat) (lambda : α) (tasks : List (Task α)) (θ : Array α) : Array α :=
  (Array.range count).map (addedAt (gradient lambda tasks θ))

theorem size_gradientVector : (gradientVector count lambda tasks θ).size = count := by simp [gradientVector]

theorem getD_gradientVector {i : Nat} (hi : i < count) :
    (gradientVector count lambda tasks θ).getD i 0 = addedAt (gradient lambda tasks θ) i := by
  simp [gradientVector, hi]

theorem addGradient_eq {buffer : Array α} (hbuffer : buffer.size = count) :
    (addGradient lambda tasks θ buffer).2 = moved buffer (gradientVector count lambda tasks θ) := by
  refine Array.ext_getElem? fun i => ?_
  rw [addGradient, getElem?_foldl_modify, moved, Array.getElem?_zipWith]
  by_cases hi : i < count
  · simp [gradientVector, hi, hbuffer]
  · rw [Array.getElem?_eq_none (by omega)]
    rfl

theorem addDue_ok (h : ∀ t ∈ tasks, t.Spans count) (hθ : θ.size = count) {buffer : Array α}
    (hbuffer : buffer.size = count) : addDue count lambda tasks θ buffer =
      .ok (entryCount tasks, moved buffer (gradientVector count lambda tasks θ)) := by
  have hcovers : (tasks.all fun t => t.covers θ.size && t.covers buffer.size) = true := by
    rw [hθ, hbuffer]
    simp only [Bool.and_self]
    exact List.all_eq_true.mpr fun t ht => (h t ht).covers
  rw [addDue, hbuffer, expectSize_ok]
  rw [hbuffer] at hcovers
  simp only [bind, Except.bind]
  rw [if_pos hcovers, ← addGradient_eq hbuffer]
  exact congrArg Except.ok (Prod.ext (visited_addGradient lambda tasks θ buffer) rfl)

/-- **`addDue` adds the derivative of `due`.** Over the rationals, for tasks that `Spans count` and parameters `θ` of
that size, there is one vector `g` such that `addDue` adds `g` to every buffer; `g` is zero where no task has an
entry; and for every move `d`, `due` changes by `∑ g i * d i` and the penalty of the squares of `d`. Without tasks
`due` is zero, and a task whose entries are all zero has no part in it. The tasks of a consolidator `k` that is `Kept`
span its parameters, and its `penalty` and `addPenaltyGradient` are `due` and `addDue` over singles. -/
theorem gradient_of_penalty {count : ℕ} {lambda : ℚ} {tasks : List (Task ℚ)} (htasks : ∀ t ∈ tasks, t.Spans count)
    {θ : Array ℚ} (hθ : θ.size = count) :
    (∃ g : Array ℚ, g.size = count ∧
      (∀ buffer : Array ℚ, buffer.size = count →
        addDue count lambda tasks θ buffer = .ok (entryCount tasks, Array.zipWith (· + ·) buffer g)) ∧
      (∀ i < count, (∀ t ∈ tasks, ∀ e ∈ t.fisher.entries, e.1 ≠ i) → g.getD i 0 = 0) ∧
      ∀ d : Array ℚ, d.size = count → ∃ before after, due lambda tasks θ = .ok before ∧
        due lambda tasks (Array.zipWith (· + ·) θ d) = .ok after ∧
        after.value - before.value = ∑ i ∈ Finset.range count, g.getD i 0 * d.getD i 0 +
          lambda * (tasks.map fun t =>
            t.importance * (t.fisher.entries.map fun e => e.2 * d.getD e.1 0 ^ 2).sum).sum) ∧
    due lambda [] θ = .ok ⟨0, 0, 0⟩ ∧
    (∀ front t rear, tasks = front ++ t :: rear → (∀ e ∈ t.fisher.entries, e.2 = 0) → (t.drift θ).1 = 0 ∧
      ∃ all others, due lambda tasks θ = .ok all ∧ due lambda (front ++ rear) θ = .ok others ∧
        all.value = others.value) ∧
    ∀ (k : Consolidator) (c : Config.Consolidation), k.Kept k.parameterCount c →
      (∀ t ∈ k.tasks, t.Spans k.parameterCount) ∧ ∀ current buffer : Vec,
        k.penalty current = due k.lambda k.tasks current ∧
        k.addPenaltyGradient current buffer = addDue k.parameterCount k.lambda k.tasks current buffer := by
  refine ⟨⟨gradientVector count lambda tasks θ, size_gradientVector, fun buffer => addDue_ok htasks hθ, ?_, ?_⟩,
    ?_, ?_, fun k c hk => ⟨hk.spans, fun current buffer => ⟨rfl, rfl⟩⟩⟩
  · intro i hi habsent
    rw [getD_gradientVector hi]
    refine addedAt_of_absent fun u hu => ?_
    obtain ⟨t, ht, hu⟩ := List.mem_flatMap.mp hu
    obtain ⟨e, he, rfl⟩ := List.mem_map.mp hu
    exact habsent t ht e he
  · intro d hd
    have hsize : d.size = θ.size := hd.trans hθ.symm
    refine ⟨_, _, due_ok htasks hθ lambda, due_ok htasks ((size_moved hsize).trans hθ) lambda, ?_⟩
    rw [value_moved hsize, ← sum_addedAt_mul (lt_of_mem_gradient htasks) d]
    refine congrArg₂ (· + ·) (Finset.sum_congr rfl fun i hi => ?_) rfl
    rw [getD_gradientVector (Finset.mem_range.mp hi)]
  · rw [due_ok (by simp) hθ, report_nil]
  · rintro front t rear rfl hzero
    refine ⟨t.drift_of_zero hzero θ, _, _, due_ok htasks hθ lambda, due_ok (fun u hu => htasks u ?_) hθ lambda,
      value_append_of_zero hzero lambda front rear θ⟩
    rcases List.mem_append.mp hu with hu | hu
    · exact List.mem_append_left _ hu
    · exact List.mem_append_right _ (List.mem_cons_of_mem t hu)

/-- Two tasks over two parameters that share the second one. -/
def overlapping : List (Task ℚ) :=
  [⟨⟨0, 1⟩, "patrol", #[0, 0], ⟨2, [(0, 1), (1, 2)]⟩, 3, 1⟩, ⟨⟨0, 2⟩, "trade", #[1, 1], ⟨2, [(1, 1 / 2)]⟩, 1, 2⟩]

/-- Moving both parameters by one: half of `3 * (1 + 2) + 1 / 2` comes from the squares of the move. -/
theorem gradient_of_penalty_of_overlapping : ∃ g : Array ℚ,
    addDue 2 (1 / 2) overlapping #[1, 2] #[7, 0] = .ok (3, Array.zipWith (· + ·) #[7, 0] g) ∧
      ∃ before after, due (1 / 2) overlapping #[1, 2] = .ok before ∧
        due (1 / 2) overlapping (Array.zipWith (· + ·) #[1, 2] #[1, 1]) = .ok after ∧
        after.value - before.value = g.getD 0 0 + g.getD 1 0 + 19 / 4 := by
  have hspans : ∀ t ∈ overlapping, t.Spans 2 := by
    intro t ht
    simp only [overlapping, List.mem_cons, List.not_mem_nil, or_false] at ht
    rcases ht with rfl | rfl <;> exact ⟨rfl, by decide⟩
  obtain ⟨⟨g, -, hadd, -, hmove⟩, -⟩ := @gradient_of_penalty 2 (1 / 2) overlapping hspans #[1, 2] rfl
  obtain ⟨before, after, hbefore, hafter, hvalue⟩ := hmove #[1, 1] rfl
  refine ⟨g, hadd #[7, 0] rfl, before, after, hbefore, hafter, hvalue.trans ?_⟩
  norm_num [overlapping, Finset.sum_range_succ]

end Penalty

end NpcMind
