import NpcMind.Proofs.Parameters
import NpcMind.Proofs.Rollback

/-!
# States for all layers, or for none

A controller takes one state from the pool of each of its layers and pays for their vectors from a budget. By
the time one payment cannot be made or one pool is found full, the layers in front have their states already.
These are given back: a failure leaves every pool `Undisturbed`. A success takes from each pool the slot that
was next in line, and nothing else; `SlotPool.Took` says so slot by slot.
-/

namespace NpcMind

open Outcome

/-! ### States as they are drawn -/

namespace CellState

/-- The vectors of the state are as long as those of the layer. -/
structure OfLayer (c : Cell) (s : CellState) : Prop where
  hidden : s.hidden.size = c.hiddenSize
  cell : s.cell.size = c.hiddenSize
  previousCell : s.previousCell.size = c.hiddenSize
  gates : s.gates.size = 4 * c.hiddenSize
  intake : s.intake.size = c.intakeSize

/-- The state holds nothing but zeros. -/
structure AllZero (s : CellState) : Prop where
  hidden : ∀ x ∈ s.hidden, x = 0
  cell : ∀ x ∈ s.cell, x = 0
  previousCell : ∀ x ∈ s.previousCell, x = 0
  gates : ∀ x ∈ s.gates, x = 0
  intake : ∀ x ∈ s.intake, x = 0
  steps : s.steps = 0

theorem ofLayer_initial {c : Cell} (h : c.Shaped) : (initial c.inputSize c.hiddenSize).OfLayer c where
  hidden := Array.size_replicate
  cell := Array.size_replicate
  previousCell := Array.size_replicate
  gates := Array.size_replicate
  intake := Array.size_replicate.trans (Nat.min_eq_left h.fits)

theorem allZero_initial (inputSize hiddenSize : Nat) : (initial inputSize hiddenSize).AllZero where
  hidden := fun _ hx => (Array.mem_replicate.mp hx).2
  cell := fun _ hx => (Array.mem_replicate.mp hx).2
  previousCell := fun _ hx => (Array.mem_replicate.mp hx).2
  gates := fun _ hx => (Array.mem_replicate.mp hx).2
  intake := fun _ hx => (Array.mem_replicate.mp hx).2
  steps := rfl

end CellState

/-! ### Paying for several states -/

/-- The lengths of the vectors of a layer's state, in the order in which they are paid for. -/
def Cell.stateLengths (c : Cell) : List Nat :=
  [c.hiddenSize, c.hiddenSize, c.hiddenSize, 4 * c.hiddenSize, c.intakeSize]

/-- A list of vectors is paid for if its first part is, and then the rest from what is left. -/
theorem Budget.takeVectors_append {b : Budget} {first rest : List Nat} :
    (b.takeVectors (first ++ rest)).1 = .ok () ↔
      ∃ b', b.takeVectors first = (.ok (), b') ∧ (b'.takeVectors rest).1 = .ok () := by
  induction first generalizing b with
  | nil =>
    refine ⟨fun h => ⟨b, rfl, h⟩, ?_⟩
    rintro ⟨b', hfirst, h⟩
    cases hfirst
    exact h
  | cons n first ih =>
    rw [List.cons_append, takeVectors.eq_def b (n :: (first ++ rest)), takeVectors.eq_def b (n :: first)]
    dsimp only
    cases b.takeVector n with
    | ok b₁ => exact ih
    | error e =>
      refine iff_of_false (fun h => ?_) ?_
      · cases h
      · rintro ⟨b', hfirst, -⟩
        cases hfirst

/-! ### One pool -/

namespace SlotPool

variable {α : Type} {p q : SlotPool α} {h : Handle} {a : α}

/-- A value was put into the slot that was next in line, and nothing else was done. -/
structure Took (p : SlotPool α) (a : α) (h : Handle) (q : SlotPool α) : Prop where
  name : q.name = p.name
  capacity : q.capacity = p.capacity
  free : p.free = h.index :: q.free
  vacant : p.slots[h.index]? = some ⟨h.generation, none⟩
  occupied : q.slots[h.index]? = some ⟨h.generation, some a⟩
  others : ∀ i, i ≠ h.index → q.slots[i]? = p.slots[i]?

theorem Tight.took (hp : p.Tight) (hi : p.insert a = .ok (h, q)) : p.Took a h q := by
  unfold insert at hi
  split at hi
  · cases hi
  · next i free hf =>
    obtain ⟨⟨g, v⟩, hs, hv⟩ := (hp.mem_free i).mp (hf ▸ List.mem_cons_self)
    obtain rfl : v = none := hv
    have hlt : i < p.slots.size := (Array.getElem?_eq_some_iff.mp hs).1
    rw [hs] at hi
    cases hi
    exact ⟨rfl, Array.size_setIfInBounds, hf, hs, Array.getElem?_setIfInBounds_self_of_lt hlt,
      fun j hj => Array.getElem?_setIfInBounds_ne (Ne.symm hj)⟩

/-- One slot more is in use. -/
theorem Took.size (ht : p.Took a h q) (hq : q.Tight) : q.size = p.size + 1 := by
  have hcapacity : q.slots.size = p.slots.size := ht.capacity
  have hfree := hq.free_length
  have hused : (h, a) ∈ q.entries := mem_entries.mpr (get?_eq_some.mpr ht.occupied)
  have hpos := List.length_pos_of_mem hused
  rw [SlotPool.size, SlotPool.size, ht.free, List.length_cons, hcapacity]
  rw [SlotPool.capacity, hcapacity] at hfree
  omega

theorem insert_of_isFull (hp : p.isFull = true) (a : α) : p.insert a = .error (.exhausted p.name p.capacity) := by
  unfold insert
  rw [List.isEmpty_iff.mp hp]

end SlotPool

/-! ### All pools -/

namespace StatePools

variable {p : StatePools} {layers layers' : List (SlotPool CellState)} {cells : List Cell} {handles : List Handle}
  {b : Budget}

theorem Filled.getElem? (hf : Filled layers handles layers') {l : Nat} {h : Handle} (hl : handles[l]? = some h) :
    ∃ pool s drawn, layers[l]? = some pool ∧ layers'[l]? = some drawn ∧ pool.insert s = .ok (h, drawn) := by
  induction hf generalizing l with
  | nil => cases hl
  | @cons pool drawn _ _ h' _ s hi _ ih =>
    cases l with
    | zero =>
      cases hl
      exact ⟨pool, s, drawn, rfl, rfl, hi⟩
    | succ l => exact ih hl

/-- **What was drawn**: from each pool the slot that was next in line, for the initial state of its layer. -/
theorem drawAll_took {b' : Budget} (ht : ∀ pool ∈ layers, pool.Tight) (hl : layers.length = cells.length)
    (hd : drawAll layers cells b = (.ok handles, layers', b')) :
    handles.length = cells.length ∧ layers'.length = layers.length ∧
      ∀ (l : Nat) (c : Cell), cells[l]? = some c → ∃ pool h drawn, layers[l]? = some pool ∧ handles[l]? = some h ∧
        layers'[l]? = some drawn ∧ pool.Took (.initial c.inputSize c.hiddenSize) h drawn ∧
        SlotPool.Inserted pool (.initial c.inputSize c.hiddenSize) h drawn := by
  obtain ⟨hdrawn, hsees⟩ := drawAll_drawn ht hl hd
  have hlen : handles.length = cells.length := by rw [← hsees.length_eq, List.length_map]
  refine ⟨hlen, hdrawn.length_eq, fun l c hc => ?_⟩
  obtain ⟨h, hh⟩ : ∃ h, handles[l]? = some h := by
    have hlt := (List.getElem?_eq_some_iff.mp hc).1
    exact ⟨_, List.getElem?_eq_getElem (hlen.symm ▸ hlt)⟩
  obtain ⟨pool, s, drawn, hpool, hlayer, hinsert⟩ := (drawAll_filled hd).getElem? hh
  have htight := ht pool (List.mem_of_getElem? hpool)
  have hinserted := htight.inserted hinsert
  -- The value behind the new handle is the one put in, and it is the initial state.
  obtain ⟨_, s', hlayer', hs', hget⟩ := hsees.getElem? hh
  cases hlayer.symm.trans hlayer'
  cases hinserted.get?_self.symm.trans hget
  rw [List.getElem?_map, hc] at hs'
  cases hs'
  exact ⟨pool, h, drawn, hpool, hh, hlayer, htight.took hinsert, hinserted⟩

/-- States can be drawn for all layers if and only if no pool is full and the budget pays for all of them. -/
theorem drawAll_ok_iff (ht : ∀ pool ∈ layers, pool.Tight) (hl : layers.length = cells.length) :
    (∃ handles, (drawAll layers cells b).1 = .ok handles) ↔ (∀ pool ∈ layers, pool.isFull = false) ∧
      (b.takeVectors (cells.flatMap Cell.stateLengths)).1 = .ok () := by
  induction layers generalizing cells b with
  | nil =>
    obtain rfl := List.length_eq_zero_iff.mp hl.symm
    exact iff_of_true ⟨[], rfl⟩ ⟨fun _ hp => absurd hp List.not_mem_nil, rfl⟩
  | cons pool layers ih =>
    obtain ⟨c, cells, rfl, hrest⟩ := List.length_eq_succ_iff.mp hl.symm
    have htight := ht pool List.mem_cons_self
    rw [List.forall_mem_cons, List.flatMap_cons, Budget.takeVectors_append]
    rcases hpaid : b.takeVectors c.stateLengths with ⟨e | ⟨⟩, b₁⟩
    · have hcharge : CellState.charge b c.inputSize c.hiddenSize = (.error e, b₁) := hpaid
      simp only [drawAll, draw, hcharge]
      refine iff_of_false (not_ok_of_error rfl) ?_
      rintro ⟨-, b', hok, -⟩
      cases hok
    have hcharge : CellState.charge b c.inputSize c.hiddenSize = (.ok (), b₁) := hpaid
    cases hfull : pool.isFull with
    | true =>
      simp only [drawAll, draw, hcharge, SlotPool.insert_of_isFull hfull]
      exact iff_of_false (not_ok_of_error rfl) fun h => Bool.noConfusion h.1.1
    | false =>
      obtain ⟨h, drawn, hinsert⟩ := SlotPool.insert_ok htight hfull (.initial c.inputSize c.hiddenSize)
      have hrest := ih (b := b₁) (fun q hq => ht q (List.mem_cons_of_mem pool hq)) hrest.symm
      have hdraw : (∃ handles, (drawAll (pool :: layers) (c :: cells) b).1 = .ok handles) ↔
          ∃ handles, (drawAll layers cells b₁).1 = .ok handles := by
        simp only [drawAll, draw, hcharge, hinsert]
        rcases drawAll layers cells b₁ with ⟨_ | rest, _, _⟩
        · exact iff_of_false (not_ok_of_error rfl) (not_ok_of_error rfl)
        · exact iff_of_true ⟨_, rfl⟩ ⟨_, rfl⟩
      rw [hdraw, hrest]
      refine ⟨fun h => ⟨⟨rfl, h.1⟩, b₁, rfl, h.2⟩, ?_⟩
      rintro ⟨hfree, b', heq, hok⟩
      cases heq
      exact ⟨hfree.2, hok⟩

theorem acquire_of_length (hl : p.layers.length = cells.length) {out : Outcome (List Handle)} {b' : Budget}
    (hd : drawAll p.layers cells b = (out, layers', b')) : p.acquire cells b = (out, ⟨layers'⟩, b') := by
  unfold acquire
  rw [hl, expectSize_ok]
  dsimp only
  rw [hd]

theorem acquire_of_length_ne (hl : p.layers.length ≠ cells.length) (b : Budget) : p.acquire cells b =
    (.error (.dimension "state pools" p.layers.length cells.length), p, b) := by
  unfold acquire expectSize
  rw [if_neg hl]

/-- **States are acquired for all layers or for none.** `p.acquire s.layers b` succeeds if and only if there is a pool
for each layer, none is full, and `b` pays for the vectors of all states in turn. On an error, every handle finds in
every pool what it found before, with the same free slots in the same order. On success there is one handle `h` for
each layer: it finds a state `OfLayer` that is `AllZero`, in the slot that was next in line (`Took`), and every other
handle finds what it found before. -/
theorem acquire_all_or_nothing (hp : ∀ pool ∈ p.layers, pool.Tight) {s : Stack} (hs : ∀ c ∈ s.layers, c.Shaped)
    (b : Budget) :
    ((∃ handles, (p.acquire s.layers b).1 = .ok handles) ↔ p.layers.length = s.layers.length ∧
      (∀ pool ∈ p.layers, pool.isFull = false) ∧
      (b.takeVectors (s.layers.flatMap Cell.stateLengths)).1 = .ok ()) ∧
    (∀ e p' b', p.acquire s.layers b = (.error e, p', b') →
      List.Forall₂ (fun pool pool' => (∀ h, pool'.get? h = pool.get? h) ∧ pool'.free = pool.free ∧
        pool'.size = pool.size) p.layers p'.layers) ∧
    ∀ handles p' b', p.acquire s.layers b = (.ok handles, p', b') →
      handles.length = s.layers.length ∧ p'.layers.length = p.layers.length ∧
      ∀ (l : Nat) (c : Cell), s.layers[l]? = some c → ∃ pool h pool' state, p.layers[l]? = some pool ∧
        handles[l]? = some h ∧ p'.layers[l]? = some pool' ∧ state.OfLayer c ∧ state.AllZero ∧
        pool'.get? h = some state ∧ (∀ k, k ≠ h → pool'.get? k = pool.get? k) ∧ pool.Took state h pool' ∧
        pool'.size = pool.size + 1 := by
  by_cases hl : p.layers.length = s.layers.length
  · have hiff := drawAll_ok_iff (b := b) hp hl
    rcases hdraw : drawAll p.layers s.layers b with ⟨out, layers', left⟩
    rw [hdraw] at hiff
    rw [acquire_of_length hl hdraw]
    refine ⟨hiff.trans (and_iff_right hl).symm, fun e p' b' herror => ?_, fun handles p' b' hok => ?_⟩
    · cases herror
      exact (drawAll_undisturbed hp hdraw).imp fun _ _ hpool => ⟨hpool.get?, hpool.free, hpool.size⟩
    · cases hok
      obtain ⟨hlen, hlayers, htook⟩ := drawAll_took hp hl hdraw
      refine ⟨hlen, hlayers, fun l c hc => ?_⟩
      obtain ⟨pool, h, drawn, hpool, hh, hdrawn, htook, hinserted⟩ := htook l c hc
      exact ⟨pool, h, drawn, _, hpool, hh, hdrawn, CellState.ofLayer_initial (hs c (List.mem_of_getElem? hc)),
        CellState.allZero_initial _ _, hinserted.get?_self, fun k hk => (hinserted.get? k).trans (if_neg hk), htook,
        htook.size hinserted.tight⟩
  · rw [acquire_of_length_ne hl]
    refine ⟨iff_of_false (not_ok_of_error rfl) fun h => hl h.1, fun e p' b' herror => ?_, fun handles p' b' hok => ?_⟩
    · cases herror
      exact List.forall₂_same.mpr fun pool _ => ⟨fun _ => rfl, rfl, rfl⟩
    · cases hok

/-- Two pools of which the second is full, while the first has one state and room for another. -/
def lopsided : StatePools :=
  ⟨[⟨"controller state pool", #[⟨0, some default⟩, {}], [1]⟩, ⟨"controller state pool", #[⟨0, some default⟩], []⟩]⟩

/-- A controller of two layers with one hidden value each. -/
def narrow : Stack :=
  ⟨1, List.replicate 2 ⟨1, 1, Tensor.ofFn (4 * 1) (wrap (1 + 1)) fun _ _ => 0, Vec.zeros 4⟩⟩

theorem tight_lopsided : ∀ pool ∈ lopsided.layers, pool.Tight := by
  have hfirst := (SlotPool.tight_ofCapacity "controller state pool" 2).inserted
    (a := (default : CellState)) (h := ⟨0, 0⟩) rfl
  have hsecond := (SlotPool.tight_ofCapacity "controller state pool" 1).inserted
    (a := (default : CellState)) (h := ⟨0, 0⟩) rfl
  exact List.forall_mem_cons.mpr ⟨hfirst.tight, List.forall_mem_singleton.mpr hsecond.tight⟩

theorem shaped_narrow : ∀ c ∈ narrow.layers, c.Shaped := by
  intro c hc
  rw [List.eq_of_mem_replicate hc]
  exact Cell.shaped_ofFn 1 1 _ (by decide) rfl

/-- The second layer finds no slot, and the first gives back the one it drew; in empty pools both find one. -/
theorem acquire_all_or_nothing_lopsided :
    (∃ p' b', lopsided.acquire narrow.layers ⟨1000, 0, 0⟩ =
        (.error (.exhausted "controller state pool" 1), p', b') ∧ b'.allocations = 10 ∧
      List.Forall₂ (fun pool pool' => (∀ h, pool'.get? h = pool.get? h) ∧ pool'.free = pool.free ∧
        pool'.size = pool.size) lopsided.layers p'.layers) ∧
    ∃ p' b' pool state, (ofCapacity 2 1).acquire narrow.layers ⟨1000, 0, 0⟩ =
        (.ok [⟨0, 0⟩, ⟨0, 0⟩], p', b') ∧
      p'.layers[1]? = some pool ∧ pool.get? ⟨0, 0⟩ = some state ∧ state.AllZero ∧ pool.size = 1 := by
  have hempty : ∀ pool ∈ (ofCapacity 2 1).layers, pool.Tight := by
    intro pool hpool
    rw [List.eq_of_mem_replicate hpool]
    exact SlotPool.tight_ofCapacity _ _
  refine ⟨⟨_, _, rfl, rfl, (acquire_all_or_nothing tight_lopsided shaped_narrow ⟨1000, 0, 0⟩).2.1 _ _ _ rfl⟩, ?_⟩
  obtain ⟨pool, h, pool', state, hpool, hh, hpool', -, hzero, hget, -, -, hsize⟩ :=
    ((acquire_all_or_nothing hempty shaped_narrow ⟨1000, 0, 0⟩).2.2 [⟨0, 0⟩, ⟨0, 0⟩] _ _ rfl).2.2 1 _ rfl
  cases hpool
  cases hh
  exact ⟨_, _, pool', state, rfl, hpool', hget, hzero, hsize⟩

end StatePools

end NpcMind
