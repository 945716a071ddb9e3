import NpcMind.Proofs.Memories
import Mathlib.Data.List.Induction
import Mathlib.Data.List.Nodup
import Mathlib.Data.List.Perm.Subperm
import Mathlib.Data.Nat.Find
import Mathlib.Logic.Relation

/-!
# Links mirror the order of writing

Slots are written one after the other. A slot counts at the position of its last write, and links join two
slots if and only if they count at neighbouring positions. That is the relation `Consecutive` of a list of
writes, and each of the three parts of a write changes the relation that the links represent (`Linked`) in
a simple way: two remove pairs, one adds a pair.

Followed back from the last write, the links list what was written, up to the first write whose slot was
written again.
-/

namespace NpcMind.Links

variable {n slot a b i j k : Nat} {l : Links} {ws : List Nat} {links : Array (Option Nat)}
  {target : Option Nat} {R : Nat → Nat → Prop}

/-! ### The order of writing -/

/-- The links after slots were written. -/
def writeAll (l : Links) (ws : List Nat) : Outcome Links := ws.foldlM recordWrite l

/-- The last write of a slot is at that position. -/
def LastAt (ws : List Nat) (i slot : Nat) : Prop := ws[i]? = some slot ∧ ∀ j, i < j → ws[j]? ≠ some slot

/-- The last writes of two slots are neighbours. -/
def Consecutive (ws : List Nat) (a b : Nat) : Prop := ∃ i, LastAt ws i a ∧ LastAt ws (i + 1) b

theorem LastAt.lt (h : LastAt ws i slot) : i < ws.length := (List.getElem?_eq_some_iff.mp h.1).1

theorem LastAt.unique (hi : LastAt ws i slot) (hj : LastAt ws j slot) : i = j := by
  rcases Nat.lt_trichotomy i j with h | h | h
  · exact absurd hj.1 (hi.2 j h)
  · exact h
  · exact absurd hi.1 (hj.2 i h)

theorem lastAt_concat :
    LastAt (ws ++ [slot]) i a ↔ (a = slot ∧ i = ws.length) ∨ (a ≠ slot ∧ LastAt ws i a) := by
  have hold (j : Nat) (hj : j < ws.length) : (ws ++ [slot])[j]? = ws[j]? := List.getElem?_append_left hj
  have hend : (ws ++ [slot])[ws.length]? = some slot := by simp
  have hpast (j : Nat) (hj : ws.length < j) : (ws ++ [slot])[j]? = none :=
    List.getElem?_eq_none (by simpa using Nat.succ_le_of_lt hj)
  have hlast : LastAt (ws ++ [slot]) ws.length slot :=
    ⟨hend, fun j hj => by rw [hpast j hj]; exact Option.some_ne_none _ |>.symm⟩
  constructor
  · intro h
    by_cases ha : a = slot
    · subst ha
      exact .inl ⟨rfl, h.unique hlast⟩
    · refine .inr ⟨ha, ?_⟩
      have hi : i < ws.length := by
        have hlt : i < ws.length + 1 := by simpa using h.lt
        have hne : i ≠ ws.length := by
          rintro rfl
          exact ha (Option.some.inj (h.1.symm.trans hend))
        omega
      refine ⟨hold i hi ▸ h.1, fun j hj hj' => ?_⟩
      exact h.2 j hj (hold j (List.getElem?_eq_some_iff.mp hj').1 ▸ hj')
  · rintro (⟨rfl, rfl⟩ | ⟨ha, h⟩)
    · exact hlast
    · refine ⟨hold i h.lt ▸ h.1, fun j hj hj' => ?_⟩
      rcases Nat.lt_trichotomy j ws.length with hlt | rfl | hgt
      · exact h.2 j hj (hold j hlt ▸ hj')
      · exact ha (Option.some.inj (hj'.symm.trans hend))
      · rw [hpast j hgt] at hj'
        cases hj'

/-- The slot written last counts at the last position. -/
theorem lastAt_of_getLast? (h : ws.getLast? = some slot) : LastAt ws (ws.length - 1) slot := by
  rw [List.getLast?_eq_getElem?] at h
  refine ⟨h, fun j hj => ?_⟩
  rw [List.getElem?_eq_none (by omega)]
  exact Option.some_ne_none _ |>.symm

theorem not_consecutive_of_getLast? (h : ws.getLast? = some a) : ¬ Consecutive ws a b := by
  rintro ⟨i, ha, hb⟩
  have hi := ha.unique (lastAt_of_getLast? h)
  have hlt := hb.lt
  omega

/-- A write parts the slot from its neighbours and joins it to the one written before. -/
theorem consecutive_concat : Consecutive (ws ++ [slot]) a b ↔
    ((Consecutive ws a b ∧ b ≠ slot) ∧ a ≠ slot) ∨ (ws.getLast? = some a ∧ a ≠ slot ∧ b = slot) := by
  simp only [Consecutive, lastAt_concat]
  constructor
  · rintro ⟨i, ⟨rfl, rfl⟩ | ⟨ha, hi⟩, hb⟩
    · rcases hb with ⟨-, hb⟩ | ⟨-, hb⟩
      · omega
      · have hlt := hb.lt
        omega
    · rcases hb with ⟨rfl, hb⟩ | ⟨hb, hi'⟩
      · refine .inr ⟨?_, ha, rfl⟩
        rw [List.getLast?_eq_getElem?, ← hb]
        exact hi.1
      · exact .inl ⟨⟨⟨i, hi, hi'⟩, hb⟩, ha⟩
  · rintro (⟨⟨⟨i, hi, hi'⟩, hb⟩, ha⟩ | ⟨hlast, ha, rfl⟩)
    · exact ⟨i, .inr ⟨ha, hi⟩, .inr ⟨hb, hi'⟩⟩
    · have hi := lastAt_of_getLast? hlast
      have hlt := hi.lt
      exact ⟨ws.length - 1, .inr ⟨ha, hi⟩, .inl ⟨rfl, by omega⟩⟩

/-! ### What one write does to links -/

/-- The links of so many slots join the slots that are related, both ways. -/
structure Linked (n : Nat) (l : Links) (R : Nat → Nat → Prop) : Prop where
  next_size : l.next.size = n
  prev_size : l.prev.size = n
  forward : ∀ a b, l.follow a .forward = some b ↔ R a b
  backward : ∀ a b, l.follow b .backward = some a ↔ R a b

theorem join_setIfInBounds (h : slot < links.size) :
    ((links.setIfInBounds slot target)[i]?).join = if i = slot then target else (links[i]?).join := by
  rw [Array.getElem?_setIfInBounds]
  by_cases hi : slot = i
  · subst hi
    simp [h]
  · simp [hi, Ne.symm hi]

namespace Linked

theorem lt (h : l.Linked n R) (hr : R a b) : a < n ∧ b < n := by
  have hforward := (h.forward a b).mpr hr
  have hbackward := (h.backward a b).mpr hr
  simp only [follow, Option.join_eq_some_iff] at hforward hbackward
  exact ⟨h.next_size ▸ (Array.getElem?_eq_some_iff.mp hforward).1,
    h.prev_size ▸ (Array.getElem?_eq_some_iff.mp hbackward).1⟩

theorem congr {R' : Nat → Nat → Prop} (h : l.Linked n R) (hr : ∀ a b, R a b ↔ R' a b) : l.Linked n R' :=
  ⟨h.next_size, h.prev_size, fun a b => (h.forward a b).trans (hr a b),
    fun a b => (h.backward a b).trans (hr a b)⟩

theorem eq_right (h : l.Linked n R) {b' : Nat} (hb : R a b) (hb' : R a b') : b = b' :=
  Option.some.inj (((h.forward a b).mpr hb).symm.trans ((h.forward a b').mpr hb'))

theorem eq_left (h : l.Linked n R) {a' : Nat} (ha : R a b) (ha' : R a' b) : a = a' :=
  Option.some.inj (((h.backward a b).mpr ha).symm.trans ((h.backward a' b).mpr ha'))

theorem ofSize (n : Nat) : (Links.ofSize n).Linked n fun _ _ => False := by
  refine ⟨Array.size_replicate, Array.size_replicate, fun a b => ?_, fun a b => ?_⟩
  · simp only [follow, Links.ofSize, Array.getElem?_replicate]
    split <;> simp
  · simp only [follow, Links.ofSize, Array.getElem?_replicate]
    split <;> simp

theorem cutBefore (h : l.Linked n R) (hslot : slot < n) :
    ∃ l', l.cutBefore slot = .ok l' ∧ l'.last = l.last ∧ l'.Linked n fun a b => R a b ∧ b ≠ slot := by
  have hprev : slot < l.prev.size := h.prev_size.symm ▸ hslot
  simp only [Links.cutBefore, look_eq hprev, bind, Except.bind]
  cases hbefore : (l.prev[slot]?).join with
  | none =>
    have hbefore : l.follow slot .backward = none := hbefore
    refine ⟨l, rfl, rfl, h.congr fun a b => ⟨fun hr => ⟨hr, ?_⟩, And.left⟩⟩
    rintro rfl
    rw [(h.backward a b).mpr hr] at hbefore
    cases hbefore
  | some before =>
    have hr : R before slot := (h.backward _ _).mp hbefore
    have hnext : before < l.next.size := h.next_size.symm ▸ (h.lt hr).1
    simp only [link_eq hprev, link_eq hnext]
    refine ⟨_, rfl, rfl, by simp [h.next_size], by simp [h.prev_size], fun a b => ?_, fun a b => ?_⟩
    · have hab := h.forward a b
      simp only [follow] at hab ⊢
      rw [join_setIfInBounds hnext]
      by_cases ha : a = before
      · subst ha
        simpa using fun hb : R a b => h.eq_right hb hr
      · rw [if_neg ha, hab]
        exact ⟨fun hb => ⟨hb, fun hs => ha (h.eq_left (hs ▸ hb) hr)⟩, And.left⟩
    · have hab := h.backward a b
      simp only [follow] at hab ⊢
      rw [join_setIfInBounds hprev]
      by_cases hb : b = slot
      · simp [hb]
      · simp [hb, hab]

theorem turned (h : l.Linked n R) : l.turned.Linked n fun a b => R b a :=
  ⟨h.prev_size, h.next_size, fun a b => h.backward b a, fun a b => h.forward b a⟩

theorem cutAfter (h : l.Linked n R) (hslot : slot < n) :
    ∃ l', l.cutAfter slot = .ok l' ∧ l'.last = l.last ∧ l'.Linked n fun a b => R a b ∧ a ≠ slot := by
  obtain ⟨l', hcut, hlast, hl'⟩ := h.turned.cutBefore hslot
  exact ⟨l'.turned, by rw [cutAfter_eq, hcut]; rfl, hlast, hl'.turned⟩

theorem append (h : l.Linked n R) (hslot : slot < n) (hlast : ∀ last, l.last = some last → last < n)
    (hfirst : ∀ a, ¬ R a slot) (hend : ∀ last b, l.last = some last → ¬ R last b) :
    ∃ l', l.append slot = .ok l' ∧ l'.last = some slot ∧
      l'.Linked n fun a b => R a b ∨ (l.last = some a ∧ a ≠ slot ∧ b = slot) := by
  have hprev : slot < l.prev.size := h.prev_size.symm ▸ hslot
  unfold Links.append
  cases hl : l.last with
  | none =>
    refine ⟨_, rfl, rfl, h.next_size, h.prev_size, fun a b => ?_, fun a b => ?_⟩
    · simpa [follow] using h.forward a b
    · simpa [follow] using h.backward a b
  | some last =>
    have hnext : last < l.next.size := h.next_size.symm ▸ hlast last hl
    by_cases hsame : last = slot
    · subst hsame
      refine ⟨l, if_pos rfl, hl, h.congr fun a b => ⟨.inl, ?_⟩⟩
      rintro (hr | ⟨hla, ha, -⟩)
      · exact hr
      · exact absurd (Option.some.inj hla).symm ha
    · simp only [if_neg hsame, link_eq hprev, link_eq hnext, bind, Except.bind]
      refine ⟨_, rfl, rfl, by simp [h.next_size], by simp [h.prev_size], fun a b => ?_, fun a b => ?_⟩
      · have hab := h.forward a b
        simp only [follow] at hab ⊢
        rw [join_setIfInBounds hnext]
        by_cases ha : a = last
        · subst ha
          simp [hend a b hl, hsame, eq_comm]
        · simp [ha, hab, Ne.symm ha]
      · have hab := h.backward a b
        simp only [follow] at hab ⊢
        rw [join_setIfInBounds hprev]
        by_cases hb : b = slot
        · subst hb
          simpa [hfirst a] using fun (hla : last = a) => hla ▸ hsame
        · simp [hb, hab]

/-- A write does to the links what it does to the order of writing. -/
theorem recordWrite (h : l.Linked n (Consecutive ws)) (hlast : l.last = ws.getLast?)
    (hws : ∀ w ∈ ws, w < n) (hslot : slot < n) :
    ∃ l', l.recordWrite slot = .ok l' ∧ l'.last = some slot ∧ l'.Linked n (Consecutive (ws ++ [slot])) := by
  obtain ⟨cut, hcut, hcutLast, hcut'⟩ := h.cutBefore hslot
  obtain ⟨free, hfree, hfreeLast, hfree'⟩ := hcut'.cutAfter hslot
  have hfreeLast : free.last = ws.getLast? := hfreeLast.trans (hcutLast.trans hlast)
  obtain ⟨l', happ, hl'Last, hl'⟩ := hfree'.append hslot
    (fun last hl => hws last (List.mem_of_getLast? (hfreeLast ▸ hl)))
    (fun a hr => hr.1.2 rfl)
    (fun last b hl hr => not_consecutive_of_getLast? (hfreeLast ▸ hl) hr.1.1)
  refine ⟨l', ?_, hl'Last, hl'.congr fun a b => ?_⟩
  · simp only [Links.recordWrite, hcut, hfree, happ, bind, Except.bind]
  · rw [consecutive_concat, hfreeLast]

end Linked

/-- The links after any writes represent the order of writing. -/
theorem linked_writeAll (hws : ∀ w ∈ ws, w < n) :
    ∃ l, (ofSize n).writeAll ws = .ok l ∧ l.last = ws.getLast? ∧ l.Linked n (Consecutive ws) := by
  induction ws using List.reverseRecOn with
  | nil =>
    refine ⟨ofSize n, rfl, rfl, (Linked.ofSize n).congr fun a b => ⟨False.elim, ?_⟩⟩
    rintro ⟨i, ha, -⟩
    exact absurd ha.lt (Nat.not_lt_zero i)
  | append_singleton ws slot ih =>
    obtain ⟨l, hl, hlast, hlinked⟩ := ih fun w hw => hws w (List.mem_append_left _ hw)
    obtain ⟨l', hl', hlast', hlinked'⟩ := hlinked.recordWrite hlast
      (fun w hw => hws w (List.mem_append_left _ hw)) (hws slot (by simp))
    refine ⟨l', ?_, by simpa using hlast', hlinked'⟩
    unfold writeAll at hl ⊢
    rw [List.foldlM_append, hl]
    simp only [List.foldlM_cons, List.foldlM_nil, hl', bind, Except.bind, pure, Except.pure]

/-! ### Reading back -/

/-- From some position on, no slot was written again, and this is as early as that is true. -/
def Settled (ws : List Nat) (k : Nat) : Prop :=
  (∀ i slot, k ≤ i → ws[i]? = some slot → LastAt ws i slot) ∧
    (k = 0 ∨ ∃ slot, ws[k - 1]? = some slot ∧ ¬ LastAt ws (k - 1) slot)

theorem exists_settled (ws : List Nat) : ∃ k ≤ ws.length, Settled ws k := by
  classical
  have hex : ∃ k, ∀ i slot, k ≤ i → ws[i]? = some slot → LastAt ws i slot := by
    refine ⟨ws.length, fun i slot hi hslot => ?_⟩
    have hlt := (List.getElem?_eq_some_iff.mp hslot).1
    omega
  refine ⟨Nat.find hex, Nat.find_min' hex ?_, Nat.find_spec hex, ?_⟩
  · intro i slot hi hslot
    have hlt := (List.getElem?_eq_some_iff.mp hslot).1
    omega
  · by_cases hk : Nat.find hex = 0
    · exact .inl hk
    · refine .inr ?_
      have hnot := Nat.find_min hex (Nat.sub_lt (Nat.pos_of_ne_zero hk) Nat.one_pos)
      push Not at hnot
      obtain ⟨i, slot, hi, hslot, hlast⟩ := hnot
      -- Later positions are settled, so it is the one just before.
      have heq : i = Nat.find hex - 1 := by
        by_contra hne
        exact hlast (Nat.find_spec hex i slot (by omega) hslot)
      exact ⟨slot, heq ▸ hslot, heq ▸ hlast⟩

theorem Settled.nodup (h : Settled ws k) : (ws.drop k).Nodup := by
  rw [List.nodup_iff_getElem?_ne_getElem?]
  intro i j hij hj
  rw [List.getElem?_drop, List.getElem?_drop]
  rw [List.length_drop] at hj
  have hjlt : k + j < ws.length := by omega
  have hilt : k + i < ws.length := by omega
  have hlast := h.1 (k + i) _ (Nat.le_add_right k i) (List.getElem?_eq_getElem hilt)
  rw [List.getElem?_eq_getElem hilt]
  exact (hlast.2 (k + j) (by omega)).symm

theorem Settled.length_le (h : Settled ws k) (hws : ∀ w ∈ ws, w < n) : ws.length - k ≤ n := by
  have hsub : ws.drop k ⊆ List.range n := fun w hw => List.mem_range.mpr (hws w (List.mem_of_mem_drop hw))
  simpa using (h.nodup.subperm hsub).length_le

/-- The last of the first `d` settled writes. -/
def headOf (ws : List Nat) (k : Nat) : Nat → Option Nat
  | 0 => none
  | d + 1 => ws[k + d]?

/-- A settled write leads back to the one before it, if that is settled too. -/
theorem Linked.follow_settled (h : l.Linked n (Consecutive ws)) (hk : Settled ws k) {d : Nat}
    (hslot : ws[k + d]? = some slot) : l.follow slot .backward = headOf ws k d := by
  have hlast := hk.1 _ _ (Nat.le_add_right k d) hslot
  cases d with
  | zero =>
    refine Option.eq_none_iff_forall_ne_some.mpr fun a ha => ?_
    obtain ⟨i, hi, hi'⟩ := (h.backward a slot).mp ha
    have heq : i + 1 = k := hi'.unique hlast
    rcases hk.2 with hzero | ⟨b, hb, hnot⟩
    · omega
    · obtain rfl : i = k - 1 := by omega
      cases hi.1.symm.trans hb
      exact hnot hi
  | succ d =>
    have hlt := hlast.lt
    have hd : ws[k + d]? = some ws[k + d] := List.getElem?_eq_getElem (by omega)
    rw [headOf, hd, h.backward]
    exact ⟨k + d, hk.1 _ _ (Nat.le_add_right k d) hd, hlast⟩

theorem Linked.backFrom (h : l.Linked n (Consecutive ws)) (hk : Settled ws k) (hws : ∀ w ∈ ws, w < n)
    {d bound : Nat} (hd : k + d ≤ ws.length) (hbound : d ≤ bound) :
    l.backFrom bound (headOf ws k d) = .ok ((ws.drop k).take d).reverse := by
  induction d generalizing bound with
  | zero => cases bound <;> rfl
  | succ d ih =>
    obtain ⟨bound, rfl⟩ : ∃ m, bound = m + 1 := ⟨bound - 1, by omega⟩
    have hlt : k + d < ws.length := by omega
    have hslot : ws[k + d]? = some ws[k + d] := List.getElem?_eq_getElem hlt
    have hprev : ws[k + d] < l.prev.size := h.prev_size.symm ▸ hws _ (List.getElem_mem hlt)
    have hback : (l.prev[ws[k + d]]?).join = headOf ws k d := h.follow_settled hk hslot
    have hrest : l.backFrom bound (headOf ws k d) = .ok ((ws.drop k).take d).reverse :=
      ih (by omega) (by omega)
    have htake : (ws.drop k).take (d + 1) = (ws.drop k).take d ++ [ws[k + d]] := by
      rw [List.take_add_one, List.getElem?_drop, hslot]
      rfl
    rw [headOf, hslot]
    simp only [Links.backFrom, look_eq hprev, hback, hrest, htake, bind, Except.bind, pure, Except.pure,
      List.reverse_append, List.reverse_cons, List.reverse_nil, List.nil_append, List.cons_append]

theorem headOf_settled (hk : Settled ws k) (hle : k ≤ ws.length) :
    headOf ws k (ws.length - k) = ws.getLast? := by
  rw [List.getLast?_eq_getElem?]
  cases hd : ws.length - k with
  | zero =>
    -- The slot written last is settled, so nothing was written.
    have hnil : ws.length = 0 := by
      rcases hk.2 with hzero | ⟨slot, hslot, hnot⟩
      · omega
      · obtain rfl : k = ws.length := by omega
        exact absurd (lastAt_of_getLast? (List.getLast?_eq_getElem?.trans hslot)) hnot
    rw [List.eq_nil_of_length_eq_zero hnil]
    rfl
  | succ d =>
    rw [headOf]
    congr 1
    omega

/-! ### All writes -/

theorem lastAt_of_transGen (h : Relation.TransGen (Consecutive ws) a b) :
    ∃ i j, i < j ∧ LastAt ws i a ∧ LastAt ws j b := by
  induction h with
  | single hab =>
    obtain ⟨i, ha, hb⟩ := hab
    exact ⟨i, i + 1, Nat.lt_succ_self i, ha, hb⟩
  | tail _ hbc ih =>
    obtain ⟨i, j, hij, ha, hb⟩ := ih
    obtain ⟨j', hb', hc⟩ := hbc
    obtain rfl := hb.unique hb'
    exact ⟨i, j + 1, by omega, ha, hc⟩

/-- The links of so many slots are those of the order of writing. -/
structure Mirrors (n : Nat) (l : Links) (ws : List Nat) : Prop where
  forward : ∀ a b, l.follow a .forward = some b ↔ Consecutive ws a b
  backward : ∀ a b, l.follow b .backward = some a ↔ Consecutive ws a b
  last : l.last = ws.getLast?
  inverse : ∀ a b, l.follow a .forward = some b ↔ l.follow b .backward = some a
  irrefl : ∀ a d, l.follow a d ≠ some a
  acyclic : ∀ a, ¬ Relation.TransGen (fun a b => l.follow a .forward = some b) a a
  /-- Read back, the writes come one by one, up to the first whose slot was written again. -/
  recent : ∃ k ≤ ws.length, Settled ws k ∧ l.recent = .ok (ws.drop k).reverse ∧ (ws.drop k).Nodup
  /-- No more would be listed, were more allowed. -/
  uncut : ∀ bound, n ≤ bound → l.backFrom bound l.last = l.recent

/-- **Links mirror the order of writing.** For every list `ws` of slots below `n`, `writeAll ws` succeeds on the links
`ofSize n`, and the result `Mirrors` `ws`: `follow` leads from slot to slot exactly between consecutive last writes,
in both directions and without cycles, `last` is the last of `ws`, and `recent` lists `ws` backwards up to the first
slot that was written again. -/
theorem links_mirror_writes (n : Nat) (ws : List Nat) (hws : ∀ w ∈ ws, w < n) :
    ∃ l, (ofSize n).writeAll ws = .ok l ∧ l.Mirrors n ws := by
  obtain ⟨l, hl, hlast, hlinked⟩ := linked_writeAll hws
  obtain ⟨k, hle, hk⟩ := exists_settled ws
  have hacyclic (a : Nat) : ¬ Relation.TransGen (Consecutive ws) a a := by
    intro h
    obtain ⟨i, j, hij, hi, hj⟩ := lastAt_of_transGen h
    exact absurd (hi.unique hj) (Nat.ne_of_lt hij)
  have hback (bound : Nat) (hbound : n ≤ bound) : l.backFrom bound l.last = .ok (ws.drop k).reverse := by
    have hfit := hk.length_le hws
    have hfrom := hlinked.backFrom hk hws (show k + (ws.length - k) ≤ ws.length by omega)
      (Nat.le_trans hfit hbound)
    rw [headOf_settled hk hle, List.take_of_length_le (by simp)] at hfrom
    rw [hlast, hfrom]
  have hrecent : l.recent = .ok (ws.drop k).reverse := hback _ (Nat.le_of_eq hlinked.prev_size.symm)
  refine ⟨l, hl, hlinked.forward, hlinked.backward, hlast, fun a b => ?_, fun a d h => ?_, fun a h => ?_,
    ⟨k, hle, hk, hrecent, hk.nodup⟩, fun bound hbound => (hback bound hbound).trans hrecent.symm⟩
  · rw [hlinked.forward, hlinked.backward]
  · cases d with
    | forward => exact hacyclic a (.single ((hlinked.forward a a).mp h))
    | backward => exact hacyclic a (.single ((hlinked.backward a a).mp h))
  · exact hacyclic a (Relation.TransGen.mono (fun a b => (hlinked.forward a b).mp) _ _ h)

/-- Slot 1 is written again in the end, so reading back goes no further than slot 2. -/
theorem links_mirror_writes_again :
    (∀ w ∈ [0, 1, 2, 1], w < 3) ∧
      (∃ l, (ofSize 3).writeAll [0, 1, 2, 1] = .ok l ∧ l.Mirrors 3 [0, 1, 2, 1]) ∧
      ((ofSize 3).writeAll [0, 1, 2, 1]).bind recent = .ok [1, 2] :=
  ⟨by decide, links_mirror_writes 3 [0, 1, 2, 1] (by decide), by rfl⟩

end NpcMind.Links
