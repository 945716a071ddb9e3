import NpcMind.Proofs.Holding

/-!
# A failure leaves no trace

Adding an agent draws a state from the pool of each layer and a place from the pool of agents; loading one
also overwrites what it drew. If any part of that fails, everything drawn is given back. A value put into a
pool, changed and taken out again leaves the pool `Undisturbed`: the same slots are free, in the same order,
and hold the same values; only a free slot is one generation further on. So a failed spawn and a failed
load leave the society as it was, down to the order in which slots will be used next.
-/

namespace NpcMind

namespace SlotPool

variable {α : Type} {p q r : SlotPool α} {h : Handle} {a b : α}

/-- The same slots are free, in the same order, and the others are the same. A free slot may have moved on
one generation. -/
structure Undisturbed (p q : SlotPool α) : Prop where
  name : q.name = p.name
  free : q.free = p.free
  capacity : q.capacity = p.capacity
  slots : ∀ (i : Nat) slot, p.slots[i]? = some slot →
    q.slots[i]? = some slot ∨ slot.value = none ∧ q.slots[i]? = some ⟨slot.generation + 1, none⟩

theorem Undisturbed.refl (p : SlotPool α) : p.Undisturbed p := ⟨rfl, rfl, rfl, fun _ _ h => .inl h⟩

theorem Undisturbed.size (h : p.Undisturbed q) : q.size = p.size := by
  have hcapacity : q.slots.size = p.slots.size := h.capacity
  rw [SlotPool.size, SlotPool.size, hcapacity, h.free]

/-- No handle tells the two apart. -/
theorem Undisturbed.get? (hq : p.Undisturbed q) (h : Handle) : q.get? h = p.get? h := by
  unfold SlotPool.get?
  cases hp : p.slots[h.index]? with
  | none =>
    have hsize : q.slots.size = p.slots.size := hq.capacity
    have hnone : q.slots[h.index]? = none := by
      rw [Array.getElem?_eq_none_iff] at hp ⊢
      rwa [hsize]
    rw [hnone]
  | some slot =>
    rcases hq.slots _ slot hp with hsame | ⟨hv, hnext⟩
    · rw [hsame]
    · rw [hnext]
      simp [hv]

/-- A value put in, changed and taken out again. -/
theorem Tight.undisturbed (hp : p.Tight) (hi : p.insert a = .ok (h, q)) :
    ∃ r, (q.set h b).remove h = .ok (b, r) ∧ p.Undisturbed r := by
  have hgood : q.get? h = some a := (hp.inserted hi).get?_self
  have hset : (q.set h b).get? h = some b := get?_set_self hgood
  unfold SlotPool.insert at hi
  split at hi
  · cases hi
  · next i free hf =>
    obtain ⟨⟨g, v⟩, hs, hv⟩ := (hp.mem_free i).mp (by rw [hf]; exact List.mem_cons_self)
    obtain rfl : v = none := hv
    have hlt : i < p.slots.size := (Array.getElem?_eq_some_iff.mp hs).1
    simp only [hs] at hi
    cases hi
    unfold SlotPool.remove
    rw [hset]
    refine ⟨_, rfl, set_name, ?_, ?_, ?_⟩
    · rw [set_of_get? hgood]
      exact hf.symm
    · rw [set_of_get? hgood]
      simp [SlotPool.capacity]
    · intro j slot hj
      rw [set_of_get? hgood]
      simp only [Array.getElem?_modify, Array.getElem?_setIfInBounds]
      by_cases hij : i = j
      · subst hij
        cases hs.symm.trans hj
        exact .inr ⟨rfl, by simp [hlt]⟩
      · exact .inl (by simpa [hij] using hj)

/-- A value put in and taken out again. -/
theorem Tight.undisturbed_of_remove (hp : p.Tight) (hi : p.insert a = .ok (h, q)) :
    ∃ r, q.remove h = .ok (a, r) ∧ p.Undisturbed r := by
  have hgood : q.get? h = some a := (hp.inserted hi).get?_self
  have hundisturbed := hp.undisturbed (b := a) hi
  rwa [set_get? hgood] at hundisturbed

end SlotPool

open StatePools Outcome

namespace StatePools

variable {layers layers' : List (SlotPool CellState)} {handles : List Handle} {states : List CellState}

/-- A state was put into every pool, at these handles. -/
inductive Filled : List (SlotPool CellState) → List Handle → List (SlotPool CellState) → Prop
  | nil (pools : List (SlotPool CellState)) : Filled pools [] pools
  | cons {p q : SlotPool CellState} {ps qs : List (SlotPool CellState)} {h : Handle} {handles : List Handle}
      {s : CellState} :
      p.insert s = .ok (h, q) → Filled ps handles qs → Filled (p :: ps) (h :: handles) (q :: qs)

theorem undisturbed_refl (layers : List (SlotPool CellState)) :
    List.Forall₂ SlotPool.Undisturbed layers layers :=
  List.forall₂_same.mpr fun pool _ => .refl pool

theorem releaseAll_nil (layers : List (SlotPool CellState)) : releaseAll layers [] = layers := by
  cases layers <;> rfl

/-- Pools give back what was put into them, whatever became of it. -/
theorem Filled.undisturbed (hf : Filled layers handles layers') (ht : ∀ pool ∈ layers, pool.Tight)
    (hlen : states.length = handles.length) :
    List.Forall₂ SlotPool.Undisturbed layers (releaseAll (putAll layers' handles states) handles) := by
  induction hf generalizing states with
  | nil pools =>
    rw [putAll_nil, releaseAll_nil]
    exact undisturbed_refl pools
  | cons hi _ ih =>
    obtain ⟨s, states, rfl, hrest⟩ := List.length_eq_succ_iff.mp hlen
    obtain ⟨r, hr, hundisturbed⟩ := (ht _ List.mem_cons_self).undisturbed (b := s) hi
    simp only [putAll, releaseAll, hr]
    exact .cons hundisturbed (ih (fun p hp => ht p (List.mem_cons_of_mem _ hp)) hrest)

theorem drawAll_filled {cells : List Cell} {b b' : Budget}
    (hd : drawAll layers cells b = (.ok handles, layers', b')) : Filled layers handles layers' := by
  induction layers generalizing cells b handles layers' with
  | nil =>
    cases hd
    exact .nil _
  | cons pool layers ih =>
    cases cells with
    | nil =>
      cases hd
      exact .nil _
    | cons c cells =>
      rcases hfirst : draw pool c b with ⟨_ | ⟨h, drawn⟩, b₁⟩
      · simp only [drawAll, hfirst] at hd
        cases hd
      rcases hrest : drawAll layers cells b₁ with ⟨_ | hs, rest, b₂⟩
      · simp only [drawAll, hfirst, hrest] at hd
        cases hd
      simp only [drawAll, hfirst, hrest] at hd
      cases hd
      exact .cons (insert_of_draw hfirst) (ih hrest)

/-- If a state cannot be drawn for some layer, those drawn for the layers before it are given back. -/
theorem drawAll_undisturbed {cells : List Cell} {b b' : Budget} {e : Error}
    (ht : ∀ pool ∈ layers, pool.Tight) (hd : drawAll layers cells b = (.error e, layers', b')) :
    List.Forall₂ SlotPool.Undisturbed layers layers' := by
  induction layers generalizing cells b layers' with
  | nil => cases hd
  | cons pool layers ih =>
    cases cells with
    | nil => cases hd
    | cons c cells =>
      rcases hfirst : draw pool c b with ⟨_ | ⟨h, drawn⟩, b₁⟩
      · simp only [drawAll, hfirst] at hd
        cases hd
        exact undisturbed_refl _
      rcases hrest : drawAll layers cells b₁ with ⟨_ | hs, rest, b₂⟩
      · obtain ⟨r, hr, hundisturbed⟩ :=
          (ht pool List.mem_cons_self).undisturbed_of_remove (insert_of_draw hfirst)
        simp only [drawAll, hfirst, hrest, releaseAll, hr, releaseAll_nil] at hd
        cases hd
        exact .cons hundisturbed (ih (fun p hp => ht p (List.mem_cons_of_mem _ hp)) hrest)
      · simp only [drawAll, hfirst, hrest] at hd
        cases hd

theorem sees_undisturbed (h : List.Forall₂ SlotPool.Undisturbed layers layers') :
    Sees layers' handles states ↔ Sees layers handles states := by
  induction h generalizing handles states with
  | nil =>
    exact Iff.rfl
  | cons hpool _ ih =>
    constructor
    · intro hv
      cases hv with
      | nil => exact .nil _
      | cons hs hv => exact .cons ((hpool.get? _).symm.trans hs) (ih.mp hv)
    · intro hv
      cases hv with
      | nil => exact .nil _
      | cons hs hv => exact .cons ((hpool.get? _).trans hs) (ih.mpr hv)

end StatePools

/-- Either there is a new agent with states of its own, or the pools are undisturbed. -/
theorem Agent.spawn_filled (p : Profile) (binding : Binding) (c : Config) {shared : Stack}
    {pools : StatePools} (ht : ∀ pool ∈ pools.layers, pool.Tight)
    (hd : pools.layers.length = shared.layers.length) :
    (∃ e pools', spawn p binding shared pools c = (.error e, pools') ∧
      List.Forall₂ SlotPool.Undisturbed pools.layers pools'.layers) ∨
    ∃ a pools', spawn p binding shared pools c = (.ok a, pools') ∧
      Filled pools.layers a.handles pools'.layers := by
  unfold spawn
  dsimp only
  by_cases hb : binding = .detached
  · simp only [hb, if_true]
    cases h : assemble p .detached none [] { capacity := c.limits.arenaFloats } c with
    | error e => exact .inl ⟨e, pools, rfl, undisturbed_refl _⟩
    | ok a =>
      obtain ⟨_, _, _, -, -, rfl⟩ := assemble_cases h
      exact .inr ⟨_, pools, rfl, .nil _⟩
  · simp only [hb, if_false, acquire, hd, expectSize_ok]
    rcases hdraw : drawAll pools.layers shared.layers _ with ⟨_ | handles, layers, b⟩
    · exact .inl ⟨_, _, rfl, drawAll_undisturbed ht hdraw⟩
    · have hfilled := drawAll_filled hdraw
      dsimp only
      cases h : assemble p binding (some shared) handles b c with
      | error e =>
        have hsees := (drawAll_drawn ht hd hdraw).2
        have hback := hfilled.undisturbed ht hsees.length_eq
        rw [putAll_of_sees hsees] at hback
        exact .inl ⟨e, _, rfl, hback⟩
      | ok a =>
        obtain ⟨_, _, _, -, -, rfl⟩ := assemble_cases h
        exact .inr ⟨_, ⟨layers⟩, rfl, hfilled⟩

namespace Society

variable {c : Config} {w w' : Society}

/-- The two societies cannot be told apart, but for the generations of free slots. -/
structure Unchanged (w w' : Society) : Prop where
  config : w'.config = w.config
  controller : w'.controller = w.controller
  board : w'.board = w.board
  index : w'.index = w.index
  agents : w.agents.Undisturbed w'.agents
  layers : List.Forall₂ SlotPool.Undisturbed w.pools.layers w'.pools.layers

theorem Unchanged.refl (w : Society) : w.Unchanged w :=
  ⟨rfl, rfl, rfl, rfl, .refl _, undisturbed_refl _⟩

theorem Unchanged.agent (h : w.Unchanged w') (id : Uuid) : w'.agent id = w.agent id := by
  simp only [Society.agent, handle, SlotPool.get, h.index, h.agents.get?]

theorem Unchanged.holds (h : w.Unchanged w') {id : Uuid} {a : Agent} {states : List CellState} :
    w'.Holds id a states ↔ w.Holds id a states := by
  simp only [Holds, h.index, h.agents.get?, sees_undisturbed h.layers]

/-- A spawn fails and leaves all unchanged, or puts an agent and its states into the pools. -/
theorem Owned.spawnWith_filled (hw : w.Owned c) (p : Profile) (binding : Binding) :
    (∃ e, (w.spawnWith p binding).1 = .error e) ∧ w.Unchanged (w.spawnWith p binding).2 ∨
    ∃ a h agents pools, w.index.lookup p.id = none ∧ w.agents.insert a = .ok (h, agents) ∧
      Filled w.pools.layers a.handles pools.layers ∧
      w.spawnWith p binding = (.ok p.id, { w with pools, agents, index := (p.id, h) :: w.index }) := by
  have ht : ∀ pool ∈ w.pools.layers, pool.Tight := fun pool hp => (hw.layers pool hp).1
  unfold Society.spawnWith
  split
  · exact .inl ⟨⟨_, rfl⟩, .refl w⟩
  next hnew =>
  split
  · exact .inl ⟨⟨_, rfl⟩, .refl w⟩
  next hroom =>
  rcases Agent.spawn_filled p binding w.config ht hw.depth with
    ⟨e, pools, hspawn, hlayers⟩ | ⟨a, pools, hspawn, hfilled⟩
  · rw [hspawn]
    exact .inl ⟨⟨e, rfl⟩, rfl, rfl, rfl, rfl, .refl _, hlayers⟩
  · obtain ⟨h, agents, hinsert⟩ := SlotPool.insert_ok hw.tight (by simpa using hroom) a
    rw [hspawn]
    simp only [hinsert]
    exact .inr ⟨a, h, agents, pools, Option.not_isSome_iff_eq_none.mp hnew, hinsert, hfilled, rfl⟩

/-- An agent that was added is removed again, whatever it and its states have become. -/
theorem Owned.unchanged_of_despawn (hw : w.Owned c) {p : Profile} {a b : Agent} {h : Handle}
    {agents : SlotPool Agent} {pools : StatePools} {states : List CellState}
    (hnew : w.index.lookup p.id = none) (hinsert : w.agents.insert a = .ok (h, agents))
    (hfilled : Filled w.pools.layers a.handles pools.layers) (hb : b.handles = a.handles)
    (hlen : states.length = a.handles.length) :
    w.Unchanged ({ w with
      pools := pools.put a.handles states
      agents := agents.set h b
      index := (p.id, h) :: w.index }.despawn p.id).2 := by
  have ht : ∀ pool ∈ w.pools.layers, pool.Tight := fun pool hp => (hw.layers pool hp).1
  obtain ⟨r, hr, hundisturbed⟩ := hw.tight.undisturbed (b := b) hinsert
  have hindex : ((p.id, h) :: w.index).filter (fun entry => entry.1 != p.id) = w.index := by
    rw [List.filter_cons_of_neg (by simp)]
    refine List.filter_eq_self.mpr fun entry hentry => ?_
    have hne := List.lookup_eq_none_iff.mp hnew entry hentry
    simpa [bne_comm] using hne
  have hlook : ((p.id, h) :: w.index).lookup p.id = some h := by simp
  simp only [Society.despawn, handle, hlook, hr, hindex]
  refine ⟨rfl, rfl, rfl, rfl, hundisturbed, ?_⟩
  simp only [StatePools.release, StatePools.put, hb]
  exact hfilled.undisturbed ht hlen

/-- What a load did that failed. -/
theorem of_load_error {s : Snapshot} {e : Error} (h : (w.load s).1 = .error e) :
    (w.load s).2 = w ∨
    ((∃ e, (w.spawnWith s.profile s.binding).1 = .error e) ∧
      (w.load s).2 = (w.spawnWith s.profile s.binding).2) ∨
    (w.spawnWith s.profile s.binding).1 = .ok s.profile.id ∧
      (w.load s).2 = (((w.spawnWith s.profile s.binding).2.restore s.profile.id s).2.despawn s.profile.id).2 := by
  have hid (i : Uuid) : (w.spawnWith s.profile s.binding).1 = .ok i → i = s.profile.id :=
    fun h => (spawnWith_ok h).1
  unfold Society.load at h ⊢
  split
  · exact .inl rfl
  · next hcompatible =>
    rw [hcompatible] at h
    generalize w.spawnWith s.profile s.binding = spawned at hid h ⊢
    obtain ⟨e | id, w₁⟩ := spawned
    · exact .inr (.inl ⟨⟨e, rfl⟩, rfl⟩)
    · obtain rfl := hid id rfl
      refine .inr (.inr ⟨rfl, ?_⟩)
      dsimp only at h ⊢
      generalize w₁.restore s.profile.id s = restored at h ⊢
      obtain ⟨e | _, w₂⟩ := restored
      · dsimp only
        generalize w₂.despawn s.profile.id = despawned
        obtain ⟨_ | _, w₃⟩ := despawned <;> rfl
      · cases h

theorem Owned.load_unchanged (hw : w.Owned c) {s : Snapshot} {e : Error} (h : (w.load s).1 = .error e) :
    w.Unchanged (w.load s).2 := by
  have hspawned := hw.spawnWith s.profile s.binding
  rcases of_load_error h with heq | ⟨⟨e', hspawn⟩, heq⟩ | ⟨hspawn, heq⟩
  · rw [heq]
    exact .refl w
  · rw [heq]
    rcases hw.spawnWith_filled s.profile s.binding with ⟨-, hunchanged⟩ | ⟨a, k, agents, pools, -, -, -, hok⟩
    · exact hunchanged
    · rw [hok] at hspawn
      cases hspawn
  · rw [heq]
    rcases hw.spawnWith_filled s.profile s.binding with ⟨⟨e', herror⟩, -⟩ |
      ⟨a, k, agents, pools, hnew, hinsert, hfilled, hok⟩
    · rw [herror] at hspawn
      cases hspawn
    · rw [hok] at hspawned ⊢
      have ha : agents.get? k = some a := (hw.tight.inserted hinsert).get?_self
      obtain ⟨states, hv⟩ := hspawned.live k a ha
      obtain ⟨out, b, next, hkeep, hlen, hact, -⟩ := Agent.isLocal_restore s a pools pools states hv hv
      have hlocate : Society.locate { w with pools, agents, index := (s.profile.id, k) :: w.index }
          s.profile.id = .ok (k, a) := locate_ok (by simp) ha
      simp only [restore_eq_act, Society.act, hlocate, hact]
      exact hw.unchanged_of_despawn hnew hinsert hfilled hkeep.handles (hlen.trans hv.length_eq)

/-- No agent, no state and nothing shared is other than before; the free slots are the same, in the same
order, and nothing but their generations has moved on. -/
structure NoTrace (w w' : Society) : Prop where
  ids : w'.ids = w.ids
  agent : ∀ id, w'.agent id = w.agent id
  holds : ∀ id a states, w'.Holds id a states ↔ w.Holds id a states
  config : w'.config = w.config
  controller : w'.controller = w.controller
  board : w'.board = w.board
  agents : w.agents.Undisturbed w'.agents
  layers : List.Forall₂ SlotPool.Undisturbed w.pools.layers w'.pools.layers

theorem Unchanged.noTrace (h : w.Unchanged w') : w.NoTrace w' :=
  ⟨congrArg (List.map Prod.fst) h.index, h.agent, fun _ _ _ => h.holds, h.config, h.controller, h.board,
    h.agents, h.layers⟩

end Society

/-- **A failed `spawnWith` or `load` leaves no trace.** In every reachable society `w`, for every profile, binding and
snapshot: if the answer is an error, the society is `NoTrace` from `w`, that is, it has the same agents, states,
configuration, controller and board, and each pool has the same free slots in the same order. -/
theorem Reachable.failure_leaves_no_trace {c : Config} {w : Society} (hw : Reachable c w) :
    (∀ p binding e, (w.spawnWith p binding).1 = .error e → w.NoTrace (w.spawnWith p binding).2) ∧
      ∀ s e, (w.load s).1 = .error e → w.NoTrace (w.load s).2 := by
  refine ⟨fun p binding e h => ?_, fun s e h => (hw.owned.load_unchanged h).noTrace⟩
  rcases hw.owned.spawnWith_filled p binding with ⟨-, hunchanged⟩ | ⟨a, k, agents, pools, -, -, -, hok⟩
  · exact hunchanged.noTrace
  · rw [hok] at h
    cases h

/-- Two layers and a small budget: there is room for the state of the first layer, but not for that of the
second. -/
def tightConfig : Config where
  controller := { hiddenSizes := [27, 512] }
  memory := { slots := 0 }
  limits := { arenaFloats := 4096 }

set_option maxRecDepth 1024 in
/-- The budget of an agent is exhausted after the first of its states was drawn. -/
theorem failure_leaves_no_trace_midway : ∃ w, Reachable tightConfig w ∧ w.contains ⟨1, 2⟩ = true ∧
    (w.spawnWith ⟨⟨3, 4⟩, "Mara", .rogue, none⟩ .shared).1 = .error (.exhausted "tensor arena" 4096) ∧
    w.NoTrace (w.spawnWith ⟨⟨3, 4⟩, "Mara", .rogue, none⟩ .shared).2 := by
  obtain ⟨w, hw, hid, he⟩ : ∃ w, Reachable tightConfig w ∧ w.contains ⟨1, 2⟩ = true ∧
      (w.spawnWith ⟨⟨3, 4⟩, "Mara", .rogue, none⟩ .shared).1 = .error (.exhausted "tensor arena" 4096) :=
    ⟨_, .next (.spawnWith ⟨⟨1, 2⟩, "Vex", .rogue, none⟩ .detached) (.start .scalar rfl), rfl, rfl⟩
  exact ⟨w, hw, hid, he, hw.failure_leaves_no_trace.1 _ _ _ he⟩

end NpcMind
