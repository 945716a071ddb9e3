import NpcMind.Proofs.Chronicles
import NpcMind.Proofs.Portions

/-!
# Only possible actions are drawn

Whatever number decides, the action drawn has a positive probability as soon as any action has one: the walk along
the probabilities stops at positive ones only, and where it does not stop at all, the largest one is taken. Every
distribution over actions has a positive probability, though it went through two divisions and a mask, and though a
sum of no use may have been replaced on the way. So what was masked is never drawn.
-/

namespace NpcMind

theorem Action.ofIndex?_index (a : Action) : ofIndex? a.index = some a := by
  cases a <;> rfl

theorem Action.index_lt (a : Action) : a.index < count := by
  cases a <;> decide

theorem Action.index_ne_idle {a : Action} (h : a.needsInterlocutor = true) : a.index ≠ idle.index := by
  intro hindex
  have hidle := ofIndex?_index a
  rw [hindex, ofIndex?_index] at hidle
  cases hidle
  cases h

namespace Choice

open Single

variable {probs weights : Vec} {u : Float32}

/-- The action has a positive probability. -/
def Possible (probs : Vec) (a : Action) : Prop := ∃ p, probs[a.index]? = some p ∧ 0 < p

theorem index_actionAt : ∀ i < Action.count, (actionAt i).index = i := by decide

theorem possible_actionAt {i : Nat} {p : Float32} (hsize : probs.size = Action.count) (hi : probs[i]? = some p)
    (hp : 0 < p) : Possible probs (actionAt i) := by
  have hlt : i < Action.count := hsize ▸ (Array.getElem?_eq_some_iff.mp hi).1
  refine ⟨p, ?_, hp⟩
  rw [index_actionAt i hlt]
  exact hi

/-! ### The walk and the largest -/

/-- The walk stops at a positive probability. -/
theorem of_reach {sum : Float32} {i j : Nat} {l : List Float32} (h : reach u sum i l = some j) :
    ∃ k p, j = i + k ∧ l[k]? = some p ∧ 0 < p := by
  induction l generalizing sum i with
  | nil => cases h
  | cons q l ih =>
    rw [reach] at h
    split at h
    · next hstop =>
      cases h
      simp only [Bool.and_eq_true, decide_eq_true_eq] at hstop
      exact ⟨0, q, rfl, rfl, hstop.1⟩
    · obtain ⟨k, p, rfl, hk, hp⟩ := ih h
      exact ⟨k + 1, p, by omega, hk, hp⟩

/-- One step of the search for the largest probability. -/
def keep (best : Nat × Float32) (e : Float32 × Nat) : Nat × Float32 := if e.1 > best.2 then (e.2, e.1) else best

theorem keep_cases (best : Nat × Float32) (e : Float32 × Nat) : keep best e = best ∨ keep best e = (e.2, e.1) := by
  unfold keep
  split
  · exact .inr rfl
  · exact .inl rfl

theorem isNaN_keep {best : Nat × Float32} (hbest : best.2.isNaN = false) (e : Float32 × Nat) :
    (keep best e).2.isNaN = false := by
  unfold keep
  split
  · next hgt => exact (ne_nan_of_lt hgt).2
  · exact hbest

/-- A step ends at a positive number if it started at one, or came across one. -/
theorem keep_pos {best : Nat × Float32} {e : Float32 × Nat} (hbest : best.2.isNaN = false)
    (h : 0 < best.2 ∨ 0 < e.1) : 0 < (keep best e).2 := by
  unfold keep
  split
  · next hgt =>
    have hnan := (ne_nan_of_lt hgt).2
    rw [pos_iff_height hbest, pos_iff_height hnan] at h
    rw [pos_iff_height hnan]
    have hheight := (lt_iff_height hbest hnan).mp hgt
    omega
  · next hle =>
    -- A positive number that is passed over is no larger than the best so far, as neither is a NaN.
    rcases h with hpos | hpos
    · exact hpos
    · have hnan := (ne_nan_of_lt hpos).2
      rw [pos_iff_height hnan] at hpos
      rw [pos_iff_height hbest]
      have hheight := mt (lt_iff_height hbest hnan).mpr hle
      omega

theorem foldl_keep {l : List Float32} {k : Nat} {best : Nat × Float32} (hbest : best.2.isNaN = false)
    (h : 0 < best.2 ∨ ∃ p ∈ l, 0 < p) : 0 < ((l.zipIdx k).foldl keep best).2 ∧
      ((l.zipIdx k).foldl keep best = best ∨
        ∃ j, ((l.zipIdx k).foldl keep best).1 = k + j ∧ l[j]? = some ((l.zipIdx k).foldl keep best).2) := by
  -- What was found so far may be kept to the end, so the induction is over any start.
  induction l generalizing k best with
  | nil => exact ⟨h.resolve_right (by simp), .inl rfl⟩
  | cons q l ih =>
    have hnext : 0 < (keep best (q, k)).2 ∨ ∃ p ∈ l, 0 < p := by
      rcases h with hpos | ⟨p, hp, hpos⟩
      · exact .inl (keep_pos hbest (.inl hpos))
      · rcases List.mem_cons.mp hp with rfl | hp
        · exact .inl (keep_pos hbest (.inr hpos))
        · exact .inr ⟨p, hp, hpos⟩
    rw [List.zipIdx_cons, List.foldl_cons]
    obtain ⟨hpos, hsame | ⟨j, hindex, hvalue⟩⟩ := ih (k := k + 1) (isNaN_keep hbest (q, k)) hnext
    · refine ⟨hpos, ?_⟩
      rw [hsame]
      rcases keep_cases best (q, k) with hkeep | hkeep
      · exact .inl hkeep
      · rw [hkeep]
        exact .inr ⟨0, rfl, rfl⟩
    · exact ⟨hpos, .inr ⟨j + 1, by omega, hvalue⟩⟩

theorem mode_eq (probs : Vec) : mode probs = (probs.toList.zipIdx.foldl keep (0, -infinity)).1 := by
  rw [mode, ← Array.foldl_toList, Array.toList_zipIdx]
  rfl

/-- The largest probability is positive if one is. -/
theorem mode_pos (h : ∃ p ∈ probs, 0 < p) : ∃ p, probs[mode probs]? = some p ∧ 0 < p := by
  obtain ⟨p, hmem, hp⟩ := h
  have hfirst : ((0, -infinity) : Nat × Float32).2.isNaN = false := rfl
  obtain ⟨hpos, hsame | ⟨j, hindex, hvalue⟩⟩ := foldl_keep (k := 0) hfirst
    (.inr ⟨p, Array.mem_toList_iff.mpr hmem, hp⟩)
  · rw [hsame] at hpos
    exact absurd hpos (by decide)
  · rw [mode_eq, hindex, Nat.zero_add, ← Array.getElem?_toList]
    exact ⟨_, hvalue, hpos⟩

/-- **Whatever number decides, a possible action is drawn** if there is one. -/
theorem possible_sample (hsize : probs.size = Action.count) (h : ∃ p ∈ probs, 0 < p) (u : Float32) :
    Possible probs (sample probs u) := by
  unfold sample
  split
  · next i hreach =>
    obtain ⟨k, p, rfl, hk, hp⟩ := of_reach hreach
    rw [Nat.zero_add]
    exact possible_actionAt hsize (Array.getElem?_toList.symm.trans hk) hp
  · obtain ⟨p, hmode, hp⟩ := mode_pos h
    exact possible_actionAt hsize hmode hp

/-! ### Distributions -/

theorem exists_sized_total (h : (Vec.total weights > 0 && (Vec.total weights).isFinite) = true) :
    ∃ e, Sized e (Vec.total weights) := by
  simp only [Bool.and_eq_true, decide_eq_true_eq] at h
  exact exists_sized h.1 h.2

/-- **There is a possible action**, whatever the weights: none of them is so small beside their sum that nothing is
left of all of them. -/
theorem normalize_pos (hsize : weights.size = Action.count) : ∃ p ∈ normalize weights, 0 < p := by
  unfold normalize
  dsimp only
  split
  · next htotal =>
    obtain ⟨e, he⟩ := exists_sized_total htotal
    have hsum := he
    rw [Vec.total, ← Array.foldl_toList] at hsum
    obtain ⟨f, hf, ⟨m, hm, hzero⟩ | ⟨p, hp, hsized⟩⟩ := hsum.of_foldl
    · cases hzero
    · rw [Array.length_toList, hsize, Action.count] at hf
      exact ⟨_, Array.mem_map_of_mem (Array.mem_toList_iff.mp hp), hsized.div he (by omega)⟩
  · refine ⟨1, Array.mem_of_getElem? (i := 0) ?_, by decide⟩
    rw [Array.getElem?_mapIdx, Array.getElem?_eq_getElem (by rw [hsize]; decide)]
    rfl

/-- No weight, no probability. -/
theorem normalize_zero {i : Nat} (hi : weights[i]? = some 0) (hne : i ≠ Action.idle.index) :
    (normalize weights)[i]? = some 0 := by
  unfold normalize
  dsimp only
  split
  · next htotal =>
    obtain ⟨e, he⟩ := exists_sized_total htotal
    rw [Array.getElem?_map, hi, Option.map_some, he.zero_div]
  · rw [Array.getElem?_mapIdx, hi, Option.map_some, if_neg hne]

theorem withoutCompany_zero {a : Action} (ha : a.needsInterlocutor = true) (hsize : a.index < probs.size) :
    (withoutCompany probs)[a.index]? = some 0 := by
  rw [withoutCompany, Array.getElem?_mapIdx, Array.getElem?_eq_getElem hsize, Option.map_some,
    Action.ofIndex?_index, Option.map_some, ha]
  rfl

/-- A distribution is made of weights, and without company the actions that need some have none. -/
theorem of_distribution {readout : Vec} {logitScale : Float32} {archetype : Archetype} {company : Bool}
    (h : distribution readout logitScale archetype company = .ok probs) : ∃ weights, probs = normalize weights ∧
      (company = false → ∀ a : Action, a.needsInterlocutor = true → weights[a.index]? = some 0) := by
  have hsize := size_distribution h
  obtain ⟨_, -, h⟩ := Outcome.ok_of_bind h
  cases h
  refine ⟨_, rfl, fun halone a ha => ?_⟩
  subst halone
  rw [size_normalize, if_neg (by decide), withoutCompany, Array.size_mapIdx] at hsize
  exact withoutCompany_zero ha (lt_of_lt_of_eq (Action.index_lt a) hsize.symm)

/-- **Only actions of positive probability are drawn.** A `readout` of at least `Action.count` numbers gives a
`distribution` of `Action.count` probabilities; without `company`, those of the actions that need an interlocutor are
zero; and for every `u`, `sample probs u` is `Possible`, so that without company it needs no interlocutor. From any
vector `probs` of that size with a positive entry, NaN among the others or not, `sample` draws a `Possible` action. -/
theorem draws_only_possible :
    (∀ (readout : Vec) (logitScale : Float32) (archetype : Archetype) (company : Bool),
      Action.count ≤ readout.size → ∃ probs, distribution readout logitScale archetype company = .ok probs ∧
        probs.size = Action.count ∧
        (company = false → ∀ a : Action, a.needsInterlocutor = true → probs[a.index]? = some 0) ∧
        ∀ u, Possible probs (sample probs u) ∧
          (company = false → (sample probs u).needsInterlocutor = false)) ∧
    ∀ probs : Vec, probs.size = Action.count → (∃ p ∈ probs, 0 < p) → ∀ u, Possible probs (sample probs u) := by
  refine ⟨fun readout logitScale archetype company hread => ?_, fun probs hsize h u => possible_sample hsize h u⟩
  obtain ⟨probs, hprobs⟩ : ∃ probs, distribution readout logitScale archetype company = .ok probs := by
    rw [distribution, Outcome.requireWithin_ok hread]
    exact ⟨_, rfl⟩
  have hsize := size_distribution hprobs
  obtain ⟨weights, rfl, hmasked⟩ := of_distribution hprobs
  rw [size_normalize] at hsize
  have hmask : company = false → ∀ a : Action, a.needsInterlocutor = true → (normalize weights)[a.index]? = some 0 :=
    fun halone a ha => normalize_zero (hmasked halone a ha) (Action.index_ne_idle ha)
  refine ⟨_, hprobs, (size_normalize weights).trans hsize, hmask, fun u => ?_⟩
  have hpossible := possible_sample ((size_normalize weights).trans hsize) (normalize_pos hsize) u
  refine ⟨hpossible, fun halone => ?_⟩
  obtain ⟨p, hp, hpos⟩ := hpossible
  by_contra hneeds
  rw [hmask halone _ (Bool.not_eq_false _ ▸ hneeds)] at hp
  cases hp
  exact absurd hpos (by decide)

/-- A readout without one number in it still gives something to do alone. Of probabilities that are all NaN but the
last one, which is far from the number that decides, the last is taken. -/
theorem draws_only_possible_alone :
    (∃ probs, distribution (Array.replicate 27 (0 / 0)) 4 .merchant false = .ok probs ∧
      Possible probs (sample probs 0.5) ∧ (sample probs 0.5).needsInterlocutor = false) ∧
    Possible (Array.replicate 20 (0 / 0) ++ #[0.25]) (sample (Array.replicate 20 (0 / 0) ++ #[0.25]) 2) := by
  obtain ⟨hdistribution, hdraw⟩ := draws_only_possible
  obtain ⟨probs, hprobs, -, -, hsample⟩ := hdistribution (Array.replicate 27 (0 / 0)) 4 .merchant false (by decide)
  obtain ⟨hpossible, halone⟩ := hsample 0.5
  exact ⟨⟨probs, hprobs, hpossible, halone rfl⟩, hdraw _ (by decide) ⟨0.25, by simp, by decide⟩ 2⟩

end Choice

end NpcMind
