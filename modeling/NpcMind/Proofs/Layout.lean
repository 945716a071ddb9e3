import NpcMind.Single
import Mathlib.Data.List.Induction

/-!
# Places in lists

Rows of weights and slots of memories are saved as one vector. If all blocks are of the same length, each
of them is found again at its place. And whoever goes through a numbered list to pick one of its elements
ends up with the number of a place in it. If it is picked by an order, it is the first of least rank.
-/

namespace NpcMind.Layout

variable {α β : Type}

theorem toList_foldl_append (f : β → Array α) (l : List β) (acc : Array α) :
    (l.foldl (fun acc x => acc ++ f x) acc).toList = acc.toList ++ l.flatMap fun x => (f x).toList := by
  induction l generalizing acc with
  | nil => simp
  | cons x l ih => simp [ih]

theorem length_flatMap_of_blocks {f : β → List α} {l : List β} {n : Nat} (hf : ∀ x ∈ l, (f x).length = n) :
    (l.flatMap f).length = l.length * n := by
  rw [List.length_flatMap, List.map_congr_left hf, List.map_const', List.sum_replicate_nat]

theorem getElem?_flatMap_of_blocks {f : β → List α} {l : List β} {n : Nat}
    (hf : ∀ x ∈ l, (f x).length = n) {i : Nat} (hi : i < n) (r : Nat) :
    (l.flatMap f)[r * n + i]? = l[r]?.bind fun x => (f x)[i]? := by
  induction l generalizing r with
  | nil => simp
  | cons x l ih =>
    have hx : (f x).length = n := hf x List.mem_cons_self
    rw [List.flatMap_cons]
    cases r with
    | zero =>
      rw [Nat.zero_mul, Nat.zero_add, List.getElem?_append_left (by omega)]
      rfl
    | succ r =>
      have hplace : (r + 1) * n + i - n = r * n + i := by
        rw [Nat.succ_mul]
        omega
      have hpast : (f x).length ≤ (r + 1) * n + i := by
        rw [Nat.succ_mul]
        omega
      rw [List.getElem?_append_right hpast, hx, hplace, ih fun y hy => hf y (List.mem_cons_of_mem x hy)]
      rfl

/-- The block of that number. -/
theorem extract_blocks {f : β → Array α} {l : List β} {n : Nat} (hf : ∀ x ∈ l, (f x).size = n)
    {xs : Array α} (hxs : xs.toList = l.flatMap fun x => (f x).toList) {r : Nat} {x : β}
    (hr : l[r]? = some x) : xs.extract (r * n) ((r + 1) * n) = f x := by
  have hlt : r < l.length := (List.getElem?_eq_some_iff.mp hr).1
  have hx : (f x).size = n := hf x (List.mem_of_getElem? hr)
  have hsize : xs.size = l.length * n := by
    rw [← Array.length_toList, hxs]
    exact length_flatMap_of_blocks fun y hy => hf y hy
  have hend : (r + 1) * n ≤ xs.size := by
    rw [hsize]
    exact Nat.mul_le_mul_right n hlt
  have hwidth : (r + 1) * n - r * n = n := by
    rw [Nat.succ_mul]
    omega
  apply Array.ext_getElem?
  intro i
  rw [Array.getElem?_extract, Nat.min_eq_left hend, hwidth]
  split
  · next hi =>
    rw [← Array.getElem?_toList, hxs, getElem?_flatMap_of_blocks (fun y hy => hf y hy) hi, hr]
    simp
  · next hi =>
    rw [eq_comm, Array.getElem?_eq_none_iff]
    omega

/-- A pick goes through a numbered list and holds on to one of them. -/
theorem foldl_pick {step : Option (Nat × α) → α × Nat → Option (Nat × α)}
    (hstep : ∀ best e, step best e = some (e.2, e.1) ∨ ∃ p, best = some p ∧ step best e = some p) {n : Nat}
    {l : List (α × Nat)} (hl : ∀ e ∈ l, e.2 < n) {best : Option (Nat × α)}
    (hbest : ∀ p, best = some p → p.1 < n) (hany : l ≠ [] ∨ ∃ p, best = some p) :
    ∃ i, (l.foldl step best).map Prod.fst = some i ∧ i < n := by
  induction l generalizing best with
  | nil =>
    obtain ⟨p, rfl⟩ := hany.resolve_left (by simp)
    exact ⟨p.1, rfl, hbest p rfl⟩
  | cons e rest ih =>
    obtain ⟨p, hp, hlt⟩ : ∃ p, step best e = some p ∧ p.1 < n := by
      rcases hstep best e with hpick | ⟨p, hp, hkeep⟩
      · exact ⟨_, hpick, hl e List.mem_cons_self⟩
      · exact ⟨p, hkeep, hbest p hp⟩
    rw [List.foldl_cons, hp]
    refine ih (fun e' he' => hl e' (List.mem_cons_of_mem e he')) (fun q hq => ?_) (.inr ⟨p, rfl⟩)
    cases hq
    exact hlt

/-! ### The first of least rank -/

variable {less : α → α → Bool}

/-- The order compares by some rank. -/
structure Ranks (less : α → α → Bool) : Prop where
  asymm : ∀ {t u}, less t u = true → less u t = false
  between : ∀ {t v}, less t v = true → ∀ u, less t u = true ∨ less u v = true

theorem Ranks.trans (h : Ranks less) {t u v : α} (htu : less t u = true) (huv : less u v = true) :
    less t v = true := by
  rcases h.between htu v with htv | hvu
  · exact htv
  · rw [h.asymm huv] at hvu
    cases hvu

theorem Ranks.of_not (h : Ranks less) {t u v : α} (htv : less t v = true) (huv : less u v = false) :
    less t u = true := by
  rcases h.between htv u with htu | huv'
  · exact htu
  · rw [huv] at huv'
    cases huv'

/-- The better one of the best element so far and another. -/
def better (less : α → α → Bool) (best : Option (Nat × α)) (e : α × Nat) : Option (Nat × α) :=
  match best with
  | none => some (e.2, e.1)
  | some (j, u) => if less e.1 u then some (e.2, e.1) else some (j, u)

/-- The best element and its place. -/
def best? (less : α → α → Bool) (l : List α) : Option (Nat × α) := l.zipIdx.foldl (better less) none

theorem best?_concat (l : List α) (t : α) :
    best? less (l ++ [t]) = better less (best? less l) (t, l.length) := by
  simp [best?, List.zipIdx_append, List.foldl_append]

theorem best?_map {β : Type} {less' : β → β → Bool} {f : α → β} (h : ∀ t u, less' (f t) (f u) = less t u)
    (l : List α) : best? less' (l.map f) = (best? less l).map (Prod.map id f) := by
  induction l using List.reverseRecOn with
  | nil => rfl
  | append_singleton l t ih =>
    rw [List.map_append, List.map_singleton, best?_concat, best?_concat, ih, List.length_map]
    cases best? less l with
    | none => rfl
    | some best =>
      simp only [better, Option.map_some, Prod.map_snd, h]
      split <;> rfl

/-- An element that goes before all in front of it, and that none behind it goes before. -/
structure Least (less : α → α → Bool) (before : List α) (t : α) (after : List α) : Prop where
  front : ∀ u ∈ before, less t u = true
  behind : ∀ u ∈ after, less u t = false

/-- **The best element is the first of least rank.** The list is looked at from the front; the induction is
on how much was looked at. -/
theorem best?_spec (h : Ranks less) (l : List α) :
    (l = [] ∧ best? less l = none) ∨ ∃ before t after, l = before ++ t :: after ∧
      best? less l = some (before.length, t) ∧ Least less before t after := by
  induction l using List.reverseRecOn with
  | nil => exact .inl ⟨rfl, rfl⟩
  | append_singleton l t ih =>
    right
    rw [best?_concat]
    obtain ⟨rfl, hnone⟩ | ⟨before, u, after, rfl, hsome, hleast⟩ := ih
    · rw [hnone]
      exact ⟨[], t, [], rfl, rfl, by simp, by simp⟩
    · rw [hsome]
      by_cases ht : less t u = true
      · refine ⟨before ++ u :: after, t, [], rfl, by simp [better, ht], ?_, by simp⟩
        intro v hv
        obtain hv | rfl | hv : v ∈ before ∨ v = u ∨ v ∈ after := by simpa using hv
        · exact h.trans ht (hleast.front v hv)
        · exact ht
        · exact h.of_not ht (hleast.behind v hv)
      · refine ⟨before, u, after ++ [t], by simp, by simp [better, ht], hleast.front, ?_⟩
        intro v hv
        obtain hv | rfl : v ∈ after ∨ v = t := by simpa using hv
        · exact hleast.behind v hv
        · exact Bool.eq_false_iff.mpr ht

end NpcMind.Layout
