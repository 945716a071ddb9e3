import NpcMind.Proofs.SlotPool
import NpcMind.Recurrent.Pools
import Mathlib.Data.List.Forall2

/-!
# The states behind a list of handles

`Sees layers handles states` says that the handles, one for each layer from the first on, are good, and
what their states are. `putAll` replaces those states. Every operation on the pools through handles that
see states is a function of these states, and changes nothing else in the pools. Handles that differ
layer by layer do not see each other's changes.
-/

namespace NpcMind.StatePools

variable {layers layers' : List (SlotPool CellState)} {handles others : List Handle}
  {states states' : List CellState}

/-- The handles are good, and these are their states. -/
inductive Sees : List (SlotPool CellState) → List Handle → List CellState → Prop
  | nil (pools : List (SlotPool CellState)) : Sees pools [] []
  | cons {pool : SlotPool CellState} {pools : List (SlotPool CellState)} {h : Handle}
      {handles : List Handle} {s : CellState} {states : List CellState} :
      pool.get? h = some s → Sees pools handles states → Sees (pool :: pools) (h :: handles) (s :: states)

/-- The pools with the states of handles replaced. -/
def putAll : List (SlotPool CellState) → List Handle → List CellState → List (SlotPool CellState)
  | pool :: pools, h :: handles, s :: states => pool.set h s :: putAll pools handles states
  | pools, _, _ => pools

/-- The pools with the states of handles replaced. -/
def put (p : StatePools) (handles : List Handle) (states : List CellState) : StatePools :=
  ⟨putAll p.layers handles states⟩

/-- The two lists of handles differ in every layer. -/
def Apart (handles others : List Handle) : Prop :=
  ∀ (l : Nat) (h k : Handle), handles[l]? = some h → others[l]? = some k → h ≠ k

/-! ### Seeing states -/

theorem Sees.length_eq (hv : Sees layers handles states) : states.length = handles.length := by
  induction hv with
  | nil => rfl
  | cons _ _ ih => simp [ih]

theorem Sees.unique (hv : Sees layers handles states) (hv' : Sees layers handles states') :
    states = states' := by
  induction hv generalizing states' with
  | nil => cases hv'; rfl
  | cons hs _ ih =>
    cases hv' with
    | cons hs' hv' =>
      rw [hs] at hs'
      cases hs'
      rw [ih hv']

theorem Sees.getElem? (hv : Sees layers handles states) {l : Nat} {h : Handle} (hl : handles[l]? = some h) :
    ∃ pool s, layers[l]? = some pool ∧ states[l]? = some s ∧ pool.get? h = some s := by
  induction hv generalizing l with
  | nil => simp at hl
  | @cons pool _ h' _ s _ hs _ ih =>
    cases l with
    | zero =>
      obtain rfl : h' = h := by simpa using hl
      exact ⟨pool, s, rfl, rfl, hs⟩
    | succ l => exact ih (by simpa using hl)

/-! ### Replacing states -/

@[simp] theorem putAll_nil (states : List CellState) : putAll layers [] states = layers := by
  cases layers <;> rfl

theorem sees_putAll (hv : Sees layers handles states) (hl : states'.length = states.length) :
    Sees (putAll layers handles states') handles states' := by
  induction hv generalizing states' with
  | nil =>
    cases states' with
    | nil => simpa using Sees.nil _
    | cons _ _ => cases hl
  | cons hs _ ih =>
    cases states' with
    | nil => cases hl
    | cons s' states' => exact .cons (SlotPool.get?_set_self hs) (ih (by simpa using hl))

theorem putAll_of_sees (hv : Sees layers handles states) : putAll layers handles states = layers := by
  induction hv with
  | nil => simp
  | cons hs _ ih => rw [putAll, SlotPool.set_get? hs, ih]

theorem put_of_sees {p : StatePools} (hv : Sees p.layers handles states) : p.put handles states = p := by
  rw [put, putAll_of_sees hv]

/-- The same slots of both pools are in use. -/
structure Kept (p q : SlotPool CellState) : Prop where
  name : q.name = p.name
  capacity : q.capacity = p.capacity
  tight : p.Tight → q.Tight
  isSome : ∀ h, (q.get? h).isSome = (p.get? h).isSome

theorem putAll_kept : List.Forall₂ Kept layers (putAll layers handles states) := by
  fun_induction putAll with
  | case1 pool pools h handles s states ih =>
    exact .cons ⟨SlotPool.set_name, SlotPool.set_capacity, .set, fun _ => SlotPool.isSome_get?_set⟩ ih
  | case2 => exact List.forall₂_same.mpr fun pool _ => ⟨rfl, rfl, id, fun _ => rfl⟩

theorem Sees.of_kept (hv : Sees layers handles states) (hk : List.Forall₂ Kept layers layers') :
    ∃ states', Sees layers' handles states' := by
  induction hv generalizing layers' with
  | nil => exact ⟨[], .nil _⟩
  | @cons pool _ h _ s _ hs _ ih =>
    obtain ⟨q, qs, hq, hqs, rfl⟩ := List.forall₂_cons_left_iff.mp hk
    obtain ⟨states', hv'⟩ := ih hqs
    obtain ⟨s', hs'⟩ := Option.isSome_iff_exists.mp ((hq.isSome h).trans (by rw [hs]; rfl))
    exact ⟨s' :: states', .cons hs' hv'⟩

/-! ### Handles that are apart -/

theorem Apart.symm (ha : Apart handles others) : Apart others handles :=
  fun l h k hh hk => (ha l k h hk hh).symm

theorem Apart.tail {h k : Handle} (ha : Apart (h :: handles) (k :: others)) : Apart handles others :=
  fun l h' k' hh hk => ha (l + 1) h' k' (by simpa using hh) (by simpa using hk)

theorem Apart.head {h k : Handle} (ha : Apart (h :: handles) (k :: others)) : h ≠ k := ha 0 h k rfl rfl

theorem Sees.putAll_apart {seen : List CellState} (hv : Sees layers others seen)
    (ha : Apart handles others) : Sees (putAll layers handles states) others seen := by
  induction hv generalizing handles states with
  | nil => exact .nil _
  | cons hs hv ih =>
    rcases handles with _ | ⟨k, handles⟩
    · simpa using Sees.cons hs hv
    rcases states with _ | ⟨s', states⟩
    · exact .cons hs hv
    · exact .cons ((SlotPool.get?_set_of_ne ha.head.symm).trans hs) (ih ha.tail)

theorem putAll_comm {theirs : List CellState} (ha : Apart handles others) :
    putAll (putAll layers handles states) others theirs =
      putAll (putAll layers others theirs) handles states := by
  induction layers generalizing handles others states theirs with
  | nil => simp [putAll]
  | cons pool layers ih =>
    rcases handles with _ | ⟨h, handles⟩
    · simp
    rcases others with _ | ⟨k, others⟩
    · simp
    rcases states with _ | ⟨s, states⟩ <;> rcases theirs with _ | ⟨t, theirs⟩
    · rfl
    · rfl
    · rfl
    · simp only [putAll, SlotPool.set_comm ha.head, ih ha.tail]

theorem put_comm {p : StatePools} {theirs : List CellState} (ha : Apart handles others) :
    (p.put handles states).put others theirs = (p.put others theirs).put handles states := by
  simp only [put, putAll_comm ha]

/-! ### Operations through handles -/

theorem reset_eq {p : StatePools} (hv : Sees p.layers handles states) :
    p.reset handles = (.ok (), p.put handles (states.map CellState.reset)) := by
  suffices changeAll (fun s _ => .ok s.reset) p.layers (handles.map (·, ())) =
      (.ok (), putAll p.layers handles (states.map CellState.reset)) by
    simp [reset, put, this]
  generalize p.layers = layers at hv
  induction hv with
  | nil pools => cases pools <;> rfl
  | cons hs hv ih =>
    simp only [List.map_cons, changeAll, SlotPool.get_eq_ok.mpr hs, bind, Except.bind, ih, putAll]

/-- States changed one by one, up to the first failure. -/
def changeStates {α : Type} (change : CellState → α → Outcome CellState) :
    List CellState → List α → Outcome Unit × List CellState
  | s :: states, a :: rest =>
    match change s a with
    | .error e => (.error e, s :: states)
    | .ok s =>
      match changeStates change states rest with
      | (out, states) => (out, s :: states)
  | states, _ => (.ok (), states)

theorem length_changeStates {α : Type} (change : CellState → α → Outcome CellState)
    (states : List CellState) (args : List α) :
    (changeStates change states args).2.length = states.length := by
  induction states generalizing args with
  | nil => simp [changeStates]
  | cons s states ih =>
    cases args with
    | nil => simp [changeStates]
    | cons a args =>
      simp only [changeStates]
      cases change s a with
      | error e => rfl
      | ok s => simp [ih]

theorem changeAll_eq {α : Type} (change : CellState → α → Outcome CellState)
    (hv : Sees layers handles states) (args : List α) :
    changeAll change layers (handles.zip args) =
      ((changeStates change states args).1, putAll layers handles (changeStates change states args).2) := by
  induction hv generalizing args with
  | nil pools =>
    have : changeStates change [] args = (.ok (), []) := by simp [changeStates]
    cases pools <;> simp [changeAll, this]
  | @cons pool pools h handles s states hs hv ih =>
    cases args with
    | nil =>
      have hput := putAll_of_sees (Sees.cons hs hv)
      simp only [List.zip_nil_right, changeAll, changeStates, hput]
    | cons a args =>
      simp only [List.zip_cons_cons, changeAll, SlotPool.get_eq_ok.mpr hs, bind, Except.bind, changeStates]
      cases change s a with
      | error e =>
        have hput := putAll_of_sees (Sees.cons hs hv)
        simp only [hput]
      | ok s' => simp only [ih, putAll]

theorem restore_eq {p : StatePools} (hv : Sees p.layers handles states) (records : List StateRecord)
    (hl : handles.length = records.length) :
    p.restore handles records = ((changeStates CellState.restore states records).1,
      p.put handles (changeStates CellState.restore states records).2) := by
  simp only [restore, put, expectSize, hl, if_true, changeAll_eq CellState.restore hv]

/-- The state of the last layer. -/
theorem get_last {p : StatePools} {h : Handle} (hv : Sees p.layers handles states)
    (hl : handles.getLast? = some h) :
    ∃ s, states.getLast? = some s ∧ p.get (handles.length - 1) h = .ok s := by
  rw [List.getLast?_eq_getElem?] at hl
  obtain ⟨pool, s, hp, hs, hg⟩ := hv.getElem? hl
  refine ⟨s, ?_, ?_⟩
  · rw [List.getLast?_eq_getElem?, hv.length_eq, hs]
  · simp only [get, hp, SlotPool.get_eq_ok.mpr hg]

theorem isFinite_eq {p : StatePools} (hv : Sees p.layers handles states) :
    p.isFinite handles = states.all CellState.isFinite := by
  unfold isFinite
  generalize p.layers = layers at hv
  induction hv with
  | nil pools => simp
  | cons hs _ ih => simp [hs, ih]

theorem records_eq {p : StatePools} (hv : Sees p.layers handles states) :
    p.records handles = .ok (states.map CellState.toRecord) := by
  unfold records
  generalize p.layers = layers at hv
  induction hv with
  | nil pools => simp; rfl
  | cons hs _ ih =>
    simp only [List.zip_cons_cons, List.mapM_cons, ih, SlotPool.get_eq_ok.mpr hs]
    rfl

/-! ### Drawing and giving back -/

/-- One value more in every pool, at these handles. -/
inductive Drawn : List (SlotPool CellState) → List Handle → List (SlotPool CellState) → Prop
  | nil (pools : List (SlotPool CellState)) : Drawn pools [] pools
  | cons {p q : SlotPool CellState} {ps qs : List (SlotPool CellState)} {h : Handle}
      {handles : List Handle} {s : CellState} :
      SlotPool.Inserted p s h q → Drawn ps handles qs → Drawn (p :: ps) (h :: handles) (q :: qs)

/-- One value less in every pool, at these handles. -/
inductive Released : List (SlotPool CellState) → List Handle → List (SlotPool CellState) → Prop
  | nil (pools : List (SlotPool CellState)) : Released pools [] pools
  | cons {p q : SlotPool CellState} {ps qs : List (SlotPool CellState)} {h : Handle}
      {handles : List Handle} :
      SlotPool.Removed p h q → Released ps handles qs → Released (p :: ps) (h :: handles) (q :: qs)

/-- The same values in every pool. -/
def Same (layers layers' : List (SlotPool CellState)) : Prop :=
  List.Forall₂ (fun p q => q.name = p.name ∧ q.capacity = p.capacity ∧ q.Tight ∧ ∀ h, q.get? h = p.get? h)
    layers layers'

theorem releaseAll_released (ht : ∀ pool ∈ layers, pool.Tight) (hv : Sees layers handles states) :
    Released layers handles (releaseAll layers handles) := by
  induction hv with
  | nil pools => cases pools <;> exact .nil _
  | @cons pool _ _ _ _ _ hs _ ih =>
    obtain ⟨q, hq, hrem⟩ := (ht pool (by simp)).removed hs
    simp only [releaseAll, hq]
    exact .cons hrem (ih fun p hp => ht p (List.mem_cons_of_mem _ hp))

theorem Same.kept (hs : Same layers layers') : List.Forall₂ Kept layers layers' :=
  hs.imp fun _ _ h => ⟨h.1, h.2.1, fun _ => h.2.2.1, fun k => by rw [h.2.2.2 k]⟩

theorem Same.sees (hs : Same layers layers') (hv : Sees layers handles states) :
    Sees layers' handles states := by
  induction hv generalizing layers' with
  | nil => exact .nil _
  | cons hg _ ih =>
    cases hs with
    | cons hpool hrest => exact .cons ((hpool.2.2.2 _).trans hg) (ih hrest)

theorem same_refl (ht : ∀ pool ∈ layers, pool.Tight) : Same layers layers :=
  List.forall₂_same.mpr fun pool hp => ⟨rfl, rfl, ht pool hp, fun _ => rfl⟩

/-- A value put in and taken out again leaves the values as they were. -/
theorem same_of_removed {p q r : SlotPool CellState} {s : CellState} {h : Handle}
    (hi : SlotPool.Inserted p s h q) (hr : SlotPool.Removed q h r) (k : Handle) : r.get? k = p.get? k := by
  rw [hr.get?, hi.get?]
  split
  · next hk =>
    subst hk
    cases hp : p.get? k with
    | none => rfl
    | some b => exact absurd rfl (hi.fresh k b hp)
  · rfl

theorem insert_of_draw {pool drawn : SlotPool CellState} {c : Cell} {b b' : Budget} {h : Handle}
    (hd : draw pool c b = (.ok (h, drawn), b')) :
    pool.insert (.initial c.inputSize c.hiddenSize) = .ok (h, drawn) := by
  unfold draw at hd
  split at hd
  · cases hd
  · exact (Prod.mk.inj hd).1

theorem drawAll_drawn {cells : List Cell} {b b' : Budget} (ht : ∀ pool ∈ layers, pool.Tight)
    (hl : layers.length = cells.length)
    (hd : drawAll layers cells b = (.ok handles, layers', b')) :
    Drawn layers handles layers' ∧
      Sees layers' handles (cells.map fun c => .initial c.inputSize c.hiddenSize) := by
  induction layers generalizing cells b handles layers' with
  | nil =>
    cases cells with
    | nil =>
      simp only [drawAll] at hd
      cases hd
      exact ⟨.nil _, .nil _⟩
    | cons _ _ => cases hl
  | cons pool layers ih =>
    cases cells with
    | nil => cases hl
    | cons c cells =>
      rcases hfirst : draw pool c b with ⟨_ | ⟨h, drawn⟩, b₁⟩
      · simp only [drawAll, hfirst] at hd
        cases hd
      rcases hrest : drawAll layers cells b₁ with ⟨_ | hs, rest, b₂⟩
      · simp only [drawAll, hfirst, hrest] at hd
        cases hd
      simp only [drawAll, hfirst, hrest] at hd
      cases hd
      have hins := (ht pool (by simp)).inserted (insert_of_draw hfirst)
      obtain ⟨hdrawn, hsees⟩ := ih (fun p hp => ht p (List.mem_cons_of_mem _ hp)) (by simpa using hl) hrest
      exact ⟨.cons hins hdrawn, .cons hins.get?_self hsees⟩

/-- If a state cannot be drawn for some layer, those drawn for the layers before it are given back. -/
theorem drawAll_error {cells : List Cell} {b b' : Budget} {e : Error} (ht : ∀ pool ∈ layers, pool.Tight)
    (hd : drawAll layers cells b = (.error e, layers', b')) : Same layers layers' := by
  induction layers generalizing cells b layers' with
  | nil => simp [drawAll] at hd
  | cons pool layers ih =>
    cases cells with
    | nil => simp [drawAll] at hd
    | cons c cells =>
      have ht' : ∀ p ∈ layers, p.Tight := fun p hp => ht p (List.mem_cons_of_mem _ hp)
      rcases hfirst : draw pool c b with ⟨_ | ⟨h, drawn⟩, b₁⟩
      · simp only [drawAll, hfirst] at hd
        cases hd
        exact same_refl ht
      rcases hrest : drawAll layers cells b₁ with ⟨_ | hs, rest, b₂⟩
      · have hins := (ht pool (by simp)).inserted (insert_of_draw hfirst)
        obtain ⟨q, hq, hrem⟩ := hins.tight.removed hins.get?_self
        have hkeep : releaseAll rest [] = rest := by cases rest <;> rfl
        simp only [drawAll, hfirst, hrest, releaseAll, hq, hkeep] at hd
        cases hd
        exact .cons ⟨hrem.name.trans hins.name, hrem.capacity.trans hins.capacity, hrem.tight,
          same_of_removed hins hrem⟩ (ih ht' hrest)
      · simp only [drawAll, hfirst, hrest] at hd
        cases hd

/-! ### What the others see of it -/

theorem Drawn.mem (hd : Drawn layers handles layers') {q : SlotPool CellState} (hq : q ∈ layers') :
    ∃ p ∈ layers, q.name = p.name ∧ q.capacity = p.capacity ∧ (p.Tight → q.Tight) := by
  induction hd with
  | nil => exact ⟨q, hq, rfl, rfl, id⟩
  | @cons p _ _ _ _ _ _ hins _ ih =>
    rcases List.mem_cons.mp hq with rfl | hq
    · exact ⟨p, List.mem_cons_self, hins.name, hins.capacity, fun _ => hins.tight⟩
    · obtain ⟨p, hp, h⟩ := ih hq
      exact ⟨p, List.mem_cons_of_mem _ hp, h⟩

theorem Drawn.length_eq (hd : Drawn layers handles layers') : layers'.length = layers.length := by
  induction hd with
  | nil => rfl
  | cons _ _ ih => simp [ih]

/-- New handles are apart from those in use, and do not disturb them. -/
theorem Drawn.sees (hd : Drawn layers handles layers') (hv : Sees layers others states) :
    Sees layers' others states ∧ Apart handles others := by
  induction hd generalizing others states with
  | nil => exact ⟨hv, fun l h k hh => by simp at hh⟩
  | @cons p q ps qs h handles s hins _ ih =>
    cases hv with
    | nil => exact ⟨.nil _, fun l h k _ hk => by simp at hk⟩
    | @cons _ _ k others t states ht hv =>
      obtain ⟨hsees, hapart⟩ := ih hv
      have hne : k ≠ h := fun hkh => hins.fresh k t ht (by rw [hkh])
      refine ⟨.cons (by rw [hins.get?, if_neg hne, ht]) hsees, fun l x y hx hy => ?_⟩
      cases l with
      | zero =>
        simp only [List.getElem?_cons_zero, Option.some.injEq] at hx hy
        rw [← hx, ← hy]
        exact hne.symm
      | succ l => exact hapart l x y (by simpa using hx) (by simpa using hy)

theorem Drawn.get? (hd : Drawn layers handles layers') {l : Nat} {q : SlotPool CellState} {x : Handle}
    {s : CellState} (hq : layers'[l]? = some q) (hx : q.get? x = some s) :
    handles[l]? = some x ∨ ∃ p, layers[l]? = some p ∧ p.get? x = some s := by
  induction hd generalizing l with
  | nil => exact .inr ⟨q, hq, hx⟩
  | @cons p q' ps qs h handles t hins _ ih =>
    cases l with
    | zero =>
      obtain rfl : q' = q := by simpa using hq
      rw [hins.get?] at hx
      by_cases hxh : x = h
      · exact .inl (by simp [hxh])
      · rw [if_neg hxh] at hx
        exact .inr ⟨p, rfl, hx⟩
    | succ l => exact ih (by simpa using hq)

/-- States that were just drawn can be given back, and all is as it was. -/
theorem Drawn.releaseAll_same (hd : Drawn layers handles layers') (ht : ∀ pool ∈ layers, pool.Tight) :
    Same layers (releaseAll layers' handles) := by
  induction hd with
  | nil pools =>
    have hkeep : releaseAll pools [] = pools := by cases pools <;> rfl
    rw [hkeep]
    exact same_refl ht
  | cons hins _ ih =>
    obtain ⟨r, hr, hrem⟩ := hins.tight.removed hins.get?_self
    simp only [releaseAll, hr]
    exact .cons ⟨hrem.name.trans hins.name, hrem.capacity.trans hins.capacity, hrem.tight,
      same_of_removed hins hrem⟩ (ih fun p hp => ht p (List.mem_cons_of_mem _ hp))

theorem Released.mem (hr : Released layers handles layers') {q : SlotPool CellState} (hq : q ∈ layers') :
    ∃ p ∈ layers, q.name = p.name ∧ q.capacity = p.capacity ∧ (p.Tight → q.Tight) := by
  induction hr with
  | nil => exact ⟨q, hq, rfl, rfl, id⟩
  | @cons p _ _ _ _ _ hrem _ ih =>
    rcases List.mem_cons.mp hq with rfl | hq
    · exact ⟨p, List.mem_cons_self, hrem.name, hrem.capacity, fun _ => hrem.tight⟩
    · obtain ⟨p, hp, h⟩ := ih hq
      exact ⟨p, List.mem_cons_of_mem _ hp, h⟩

theorem Released.length_eq (hr : Released layers handles layers') : layers'.length = layers.length := by
  induction hr with
  | nil => rfl
  | cons _ _ ih => simp [ih]

theorem Released.sees (hr : Released layers handles layers') (ha : Apart handles others)
    (hv : Sees layers others states) : Sees layers' others states := by
  induction hr generalizing others states with
  | nil => exact hv
  | cons hrem _ ih =>
    cases hv with
    | nil => exact .nil _
    | cons ht hv => exact .cons (by rw [hrem.get?, if_neg ha.head.symm, ht]) (ih ha.tail hv)

theorem Released.get? (hr : Released layers handles layers') {l : Nat} {q : SlotPool CellState}
    {x : Handle} {s : CellState} (hq : layers'[l]? = some q) (hx : q.get? x = some s) :
    handles[l]? ≠ some x ∧ ∃ p, layers[l]? = some p ∧ p.get? x = some s := by
  induction hr generalizing l with
  | nil => exact ⟨by simp, q, hq, hx⟩
  | @cons p q' ps qs h handles hrem _ ih =>
    cases l with
    | zero =>
      obtain rfl : q' = q := by simpa using hq
      rw [hrem.get?] at hx
      by_cases hxh : x = h
      · rw [if_pos hxh] at hx
        cases hx
      · rw [if_neg hxh] at hx
        exact ⟨fun hh => hxh (by simpa using hh.symm), p, rfl, hx⟩
    | succ l => exact ih (by simpa using hq)

end NpcMind.StatePools
