import NpcMind.Memory.Ranking
import NpcMind.Proofs.Order

/-!
# What a ranking holds

A ranking is kept by insertion: a match climbs from the last place past all that are worse, and a full ranking
gives up its last match only for a better one. One offer puts the match where a stable sort would, and drops
what is past the limit. Over all offers the ranking is the front of the stable sort of everything that was
offered, by descending scores, and its first match does not depend on the limit.
-/

namespace NpcMind.Ranking

open Single

variable {front : List (Nat × Float32)} {m : Nat × Float32} {r : Ranking}

/-- Where a match stands among others. -/
def standing (e : Nat × Float32) : ℤ := height e.2

/-- The matches are in the order of a ranking: none has a NaN, and none is better than one in front of it. -/
structure InOrder (entries : List (Nat × Float32)) : Prop where
  scored : ∀ e ∈ entries, e.2.isNaN = false
  descending : Descending standing entries

theorem InOrder.sublist {l l' : List (Nat × Float32)} (h : InOrder l) (hl : l'.Sublist l) : InOrder l' :=
  ⟨fun e he => h.scored e (hl.subset he), h.descending.sublist hl⟩

theorem inOrder_ranked {l : List (Nat × Float32)} (h : ∀ e ∈ l, e.2.isNaN = false) :
    InOrder (ranked standing l) :=
  ⟨fun e he => h e (List.mem_mergeSort.mp he), descending_ranked standing l⟩

/-! ### One offer -/

/-- **A match climbs to where it belongs.** What is at the place that it starts from makes way, and what is
behind that place stays. -/
theorem climb_eq (hm : m.2.isNaN = false) (h : InOrder front) (x : Nat × Float32)
    (back : List (Nat × Float32)) :
    climb m front.length (front ++ x :: back) = enter standing m front ++ back := by
  -- By induction from the last entry on, the one that the match meets first. What it has passed is in `back`.
  induction front using List.reverseRecOn generalizing x back with
  | nil => rfl
  | append_singleton front e ih =>
    have he : e.2.isNaN = false := h.scored e (by simp)
    have hget : (front ++ [e] ++ x :: back)[front.length]? = some e := by simp
    have hset (y : Nat × Float32) :
        (front ++ [e] ++ x :: back).set (front.length + 1) y = front ++ e :: y :: back := by simp
    rw [List.length_append, List.length_singleton, climb]
    simp only [hget, hset]
    split
    · next hlt =>
      rw [ih (h.sublist (List.sublist_append_left front [e])),
        enter_concat_of_lt front ((lt_iff_height he hm).mp hlt), List.append_assoc]
      rfl
    · next hge =>
      have hle : standing m ≤ standing e := not_lt.mp fun hlt => hge ((lt_iff_height he hm).mpr hlt)
      rw [h.descending.enter_concat_of_le hle]
      simp

/-- **One offer** puts a match where it belongs, and drops what is past the limit. -/
theorem offer_eq (h : InOrder r.entries) (hlen : r.entries.length ≤ r.limit) (hm : m.2.isNaN = false) :
    (r.offer m.1 m.2).entries = (enter standing m r.entries).take r.limit := by
  unfold offer
  by_cases hzero : r.limit = 0
  · have hnil : r.entries = [] := List.eq_nil_of_length_eq_zero (by omega)
    simp [hzero, hnil]
  simp only [hzero, hm, decide_false, Bool.or_self, Bool.false_eq_true, if_false]
  by_cases hfull : r.entries.length = r.limit
  · simp only [isFull, hfull, decide_true, Bool.true_and, if_true]
    obtain ⟨front, last, hentries⟩ : ∃ front last, r.entries = front ++ [last] :=
      ⟨_, _, (List.dropLast_append_getLast (List.ne_nil_of_length_pos (by omega))).symm⟩
    rw [hentries] at h hfull ⊢
    have hlast : last.2.isNaN = false := h.scored last (by simp)
    simp only [List.getLast?_concat, Option.any_some, decide_eq_true_eq]
    split
    · next hle =>
      -- Not better than the last one: the match would come after all that there is room for.
      rw [h.descending.enter_concat_of_le ((le_iff_height hm hlast).mp hle), ← hfull, List.take_left, hentries]
    · next hgt =>
      have hlow : standing last < standing m := not_le.mp fun hle => hgt ((le_iff_height hm hlast).mpr hle)
      have hfront := h.sublist (List.sublist_append_left front [last])
      have hroom : (enter standing m front).length = r.limit := by
        rw [hfront.descending.length_enter, ← hfull, List.length_append, List.length_singleton]
      have hplace : r.limit - 1 = front.length := by
        rw [← hfull, List.length_append, List.length_singleton, Nat.add_sub_cancel]
      rw [hplace, climb_eq hm hfront, enter_concat_of_lt front hlow, ← hroom, List.take_left, List.append_nil]
  · simp only [isFull, hfull, decide_false, Bool.false_and, Bool.false_eq_true, if_false]
    have hroom : (enter standing m r.entries).length ≤ r.limit := by
      rw [h.descending.length_enter]
      omega
    rw [List.length_append, List.length_singleton, Nat.add_sub_cancel, climb_eq hm h, List.append_nil,
      List.take_of_length_le hroom]

/-! ### All offers -/

/-- The matches whose score is not a NaN. -/
def eligible (found : List (Nat × Float32)) : List (Nat × Float32) := found.filter fun e => !e.2.isNaN

theorem scored_eligible (found : List (Nat × Float32)) : ∀ e ∈ eligible found, e.2.isNaN = false := by
  intro e he
  simpa using (List.mem_filter.mp he).2

theorem limit_offer (r : Ranking) (slot : Nat) (score : Float32) : (r.offer slot score).limit = r.limit := by
  unfold offer
  split
  · rfl
  · split <;> rfl

theorem ofMatches_concat (k : Nat) (found : List (Nat × Float32)) (m : Nat × Float32) :
    ofMatches k (found ++ [m]) = (ofMatches k found).offer m.1 m.2 := by
  simp [ofMatches, List.foldl_append]

theorem limit_ofMatches (k : Nat) (found : List (Nat × Float32)) : (ofMatches k found).limit = min k 8 := by
  induction found using List.reverseRecOn with
  | nil => rfl
  | append_singleton found m ih => rw [ofMatches_concat, limit_offer, ih]

/-- **A ranking holds the front of what it was offered**, sorted. -/
theorem entries_ofMatches (k : Nat) (found : List (Nat × Float32)) :
    (ofMatches k found).entries = (ranked standing (eligible found)).take (min k 8) := by
  induction found using List.reverseRecOn with
  | nil => simp [ofMatches, ofLimit, eligible, ranked]
  | append_singleton found m ih =>
    have hlimit := limit_ofMatches k found
    have hsorted := inOrder_ranked (scored_eligible found)
    rw [ofMatches_concat]
    cases hm : m.2.isNaN with
    | true =>
      have heligible : eligible (found ++ [m]) = eligible found := by
        rw [eligible, List.filter_append, List.filter_cons, hm]
        exact List.append_nil _
      rw [heligible, ← ih, offer, hm, Bool.or_true, if_pos rfl]
    | false =>
      have heligible : eligible (found ++ [m]) = eligible found ++ [m] := by
        rw [eligible, List.filter_append, List.filter_cons, hm]
        rfl
      have hentries : InOrder (ofMatches k found).entries := ih ▸ hsorted.sublist (List.take_sublist _ _)
      have hlen : (ofMatches k found).entries.length ≤ (ofMatches k found).limit := by
        rw [ih, hlimit]
        exact List.length_take_le _ _
      rw [offer_eq hentries hlen hm, ih, hlimit, hsorted.descending.take_enter, heligible, ranked_concat]

/-- Where no score is a NaN, sorting by heights is sorting by scores. -/
theorem ranked_eq_mergeSort {l : List (Nat × Float32)} (h : ∀ e ∈ l, e.2.isNaN = false) :
    ranked standing l = l.mergeSort fun e f => f.2 ≤ e.2 := by
  have hsame : ∀ e ∈ l, ∀ f ∈ l, decide (standing f ≤ standing e) = decide ((id f).2 ≤ (id e).2) :=
    fun e he f hf => decide_eq_decide.mpr (le_iff_height (h f hf) (h e he)).symm
  have hmap := List.map_mergeSort (s := fun e f : Nat × Float32 => decide (f.2 ≤ e.2)) hsame
  rwa [List.map_id, List.map_id] at hmap

/-- **A ranking is the front of a stable sort.** For every limit `k` and every list `found` of matches, the entries of
`ofMatches k found` are the first `min k 8` of those whose score is not NaN, sorted stably by descending score, and
`best?` is the first of all of them for every limit but zero. -/
theorem ofMatches_sorts (k : Nat) (found : List (Nat × Float32)) :
    (ofMatches k found).entries =
      ((found.filter fun e => !e.2.isNaN).mergeSort fun e f => f.2 ≤ e.2).take (min k 8) ∧
    (ofMatches (k + 1) found).best? =
      ((found.filter fun e => !e.2.isNaN).mergeSort fun e f => f.2 ≤ e.2).head? := by
  have hranked := ranked_eq_mergeSort (scored_eligible found)
  constructor
  · rw [entries_ofMatches, hranked]
    rfl
  · have hpos : min (k + 1) 8 ≠ 0 := by omega
    rw [best?, entries_ofMatches, hranked, List.head?_take, if_neg hpos]
    rfl

end NpcMind.Ranking
