import NpcMind.Proofs.Requests
import NpcMind.Proofs.SlotErrors

/-!
# Who holds what in a society

Three structures have to agree: the index from identities to agents, the pool of agents, and one pool of
states for each layer of the controller. `Owned` says that they do. Every request keeps it, whether it
succeeds or fails: a failed spawn gives back what it drew, and a failed load removes the agent it added.
-/

namespace NpcMind

open StatePools Outcome

namespace Agent

/-- What a new agent is made of. -/
theorem assemble_cases {p : Profile} {binding : Binding} {controller : Option Stack}
    {handles : List Handle} {b : Budget} {c : Config} {a : Agent}
    (h : assemble p binding controller handles b c = .ok a) :
    ∃ budget memory consolidator,
      Memory.ofConfig c.memory = .ok memory ∧
      Consolidator.ofConfig ((controller.map Stack.parameterCount).getD 0) c.consolidation =
        .ok consolidator ∧
      a = {
        profile := p
        binding
        controller
        handles
        budget
        outputSize := (controller.map (·.outputSize c.controller.outputMode)).getD Config.readoutWidth
        memory
        affect := .initial p.archetype
        attention := .initial p.archetype
        longTermContext := Vec.zeros (vectorSize c.memory.width)
        probabilities := Vec.zeros Action.count
        sampler := .ofSeed p.id.seed
        consolidator
        accumulator := .ofCount ((controller.map Stack.parameterCount).getD 0) } := by
  unfold assemble at h
  obtain ⟨budget, -, h⟩ := ok_of_bind h
  obtain ⟨memory, hmemory, h⟩ := ok_of_bind h
  obtain ⟨consolidator, hconsolidator, h⟩ := ok_of_bind h
  cases h
  exact ⟨budget, memory, consolidator, hmemory, hconsolidator, rfl⟩

/-- The controller of a new agent. -/
def initialController (binding : Binding) (shared : Stack) : Option Stack :=
  if binding = .detached then none else some shared

/-- The states of a new agent's controller. -/
def initialStates (binding : Binding) (shared : Stack) : List CellState :=
  if binding = .detached then []
  else shared.layers.map fun c => .initial c.inputSize c.hiddenSize

/-- Either there is a new agent with states of its own, or the pools are as they were. -/
theorem spawn_cases (p : Profile) (binding : Binding) (c : Config) {shared : Stack} {pools : StatePools}
    (ht : ∀ pool ∈ pools.layers, pool.Tight) (hd : pools.layers.length = shared.layers.length) :
    (∃ e pools', spawn p binding shared pools c = (.error e, pools') ∧ Same pools.layers pools'.layers) ∨
    ∃ a b handles pools', spawn p binding shared pools c = (.ok a, pools') ∧
      assemble p binding (initialController binding shared) handles b c = .ok a ∧
      Drawn pools.layers handles pools'.layers ∧
      Sees pools'.layers handles (initialStates binding shared) := by
  unfold spawn initialController initialStates
  dsimp only
  by_cases hb : binding = .detached
  · simp only [hb, if_true]
    cases h : assemble p .detached none [] { capacity := c.limits.arenaFloats } c with
    | error e => exact .inl ⟨e, pools, rfl, same_refl ht⟩
    | ok a => exact .inr ⟨a, _, [], pools, rfl, h, .nil _, .nil _⟩
  · simp only [hb, if_false, acquire, hd, expectSize_ok]
    rcases hdraw : drawAll pools.layers shared.layers _ with ⟨_ | handles, layers, b⟩
    · exact .inl ⟨_, _, rfl, drawAll_error ht hdraw⟩
    · obtain ⟨hdrawn, hsees⟩ := drawAll_drawn ht hd hdraw
      dsimp only
      cases h : assemble p binding (some shared) handles b c with
      | error e => exact .inl ⟨e, _, rfl, hdrawn.releaseAll_same ht⟩
      | ok a => exact .inr ⟨a, b, handles, ⟨layers⟩, rfl, h, hdrawn, hsees⟩

end Agent

namespace Society

/-- Index, agents and states agree on who is there and who holds what. -/
structure Owned (c : Config) (w : Society) : Prop where
  config : w.config = c
  stack : Stack.ofConfig (controllerInputWidth c.memory.width) c.controller = .ok w.controller
  capacity : w.agents.capacity = c.limits.maxAgents
  name : w.agents.name = "agent pool"
  tight : w.agents.Tight
  located : ∀ id h, w.index.lookup id = some h → ∃ a, w.agents.get? h = some a ∧ a.id = id
  indexed : ∀ h a, w.agents.get? h = some a → w.index.lookup a.id = some h
  nodup : w.ids.Nodup
  layers : ∀ pool ∈ w.pools.layers, pool.Tight ∧ pool.capacity = w.agents.capacity
  depth : w.pools.layers.length = w.controller.layers.length
  attached : ∀ h a, w.agents.get? h = some a →
    a.handles.length = if a.binding = .detached then 0 else w.pools.layers.length
  live : ∀ h a, w.agents.get? h = some a → ∃ states, Sees w.pools.layers a.handles states
  apart : ∀ h a k b, w.agents.get? h = some a → w.agents.get? k = some b → h ≠ k →
    Apart a.handles b.handles
  held : ∀ (l : Nat) pool x s, w.pools.layers[l]? = some pool → pool.get? x = some s →
    ∃ h a, w.agents.get? h = some a ∧ a.handles[l]? = some x

/-- The number of agents that have states of a controller. -/
def attachedCount (w : Society) : Nat := w.agents.entries.countP fun e => e.2.binding ≠ .detached

variable {c : Config} {w : Society} {id : Uuid} {h : Handle} {a b : Agent}

theorem attachedCount_le (w : Society) : w.attachedCount ≤ w.agents.entries.length := List.countP_le_length

namespace Owned

/-- The board has no part in it. -/
theorem board (hw : w.Owned c) (board : Option Board) : { w with board }.Owned c :=
  ⟨hw.config, hw.stack, hw.capacity, hw.name, hw.tight, hw.located, hw.indexed, hw.nodup, hw.layers,
    hw.depth, hw.attached, hw.live, hw.apart, hw.held⟩

/-- An agent is found under its identity, and its controller's states are there. -/
theorem locate (hw : w.Owned c) (hid : w.index.lookup id = some h) :
    ∃ a states, w.locate id = .ok (h, a) ∧ w.agents.get? h = some a ∧ a.id = id ∧
      Sees w.pools.layers a.handles states := by
  obtain ⟨a, ha, rfl⟩ := hw.located id h hid
  obtain ⟨states, hv⟩ := hw.live h a ha
  exact ⟨a, states, locate_ok hid ha, ha, rfl, hv⟩

/-! ### Changing agents and states in place -/

/-- States may change as long as the same slots stay in use. -/
theorem of_kept (hw : w.Owned c) {layers : List (SlotPool CellState)}
    (hk : List.Forall₂ Kept w.pools.layers layers) : { w with pools := ⟨layers⟩ }.Owned c := by
  refine ⟨hw.config, hw.stack, hw.capacity, hw.name, hw.tight, hw.located, hw.indexed, hw.nodup, ?_,
    hk.length_eq.symm.trans hw.depth, ?_, ?_, hw.apart, ?_⟩
  · intro q hq
    obtain ⟨l, hl, rfl⟩ := List.getElem_of_mem hq
    have hl' : l < w.pools.layers.length := hk.length_eq ▸ hl
    have hkept := hk.get hl' hl
    obtain ⟨ht, hc⟩ := hw.layers _ (List.getElem_mem hl')
    exact ⟨hkept.tight ht, hkept.capacity.trans hc⟩
  · intro h a ha
    rw [hw.attached h a ha]
    simp only [hk.length_eq]
  · intro h a ha
    obtain ⟨states, hv⟩ := hw.live h a ha
    exact hv.of_kept hk
  · intro l q x s hq hx
    obtain ⟨hl, rfl⟩ := List.getElem?_eq_some_iff.mp hq
    have hl' : l < w.pools.layers.length := hk.length_eq ▸ hl
    have hkept := (hk.get hl' hl).isSome x
    rw [List.get_eq_getElem, hx] at hkept
    obtain ⟨t, ht⟩ := Option.isSome_iff_exists.mp hkept.symm
    exact hw.held l _ x t (List.getElem?_eq_getElem hl') ht

/-- An agent may change as long as it stays who it is and holds what it held. -/
theorem set (hw : w.Owned c) (ha : w.agents.get? h = some a) (hk : Agent.Keeps a b) :
    { w with agents := w.agents.set h b }.Owned c := by
  -- Under every handle there is the agent that was there, but for what an agent may change.
  have hafter : ∀ k c, (w.agents.set h b).get? k = some c →
      ∃ c₀, w.agents.get? k = some c₀ ∧ Agent.Keeps c₀ c := by
    intro k c hc
    by_cases hkh : k = h
    · subst hkh
      rw [SlotPool.get?_set_self ha] at hc
      cases hc
      exact ⟨a, ha, hk⟩
    · rw [SlotPool.get?_set_of_ne hkh] at hc
      exact ⟨c, hc, .refl c⟩
  have hbefore : ∀ k c₀, w.agents.get? k = some c₀ →
      ∃ c, (w.agents.set h b).get? k = some c ∧ Agent.Keeps c₀ c := by
    intro k c₀ hc₀
    by_cases hkh : k = h
    · subst hkh
      rw [ha] at hc₀
      cases hc₀
      exact ⟨b, SlotPool.get?_set_self ha, hk⟩
    · exact ⟨c₀, by rw [SlotPool.get?_set_of_ne hkh, hc₀], .refl c₀⟩
  refine ⟨hw.config, hw.stack, SlotPool.set_capacity.trans hw.capacity, SlotPool.set_name.trans hw.name,
    hw.tight.set, ?_, ?_, hw.nodup, ?_, hw.depth, ?_, ?_, ?_, ?_⟩
  · intro id k hid
    obtain ⟨c₀, hc₀, rfl⟩ := hw.located id k hid
    obtain ⟨c, hc, hkeep⟩ := hbefore k c₀ hc₀
    exact ⟨c, hc, congrArg Profile.id hkeep.profile⟩
  · intro k c hc
    obtain ⟨c₀, hc₀, hkeep⟩ := hafter k c hc
    have hid : c.id = c₀.id := congrArg Profile.id hkeep.profile
    rw [hid]
    exact hw.indexed k c₀ hc₀
  · intro pool hp
    rw [SlotPool.set_capacity]
    exact hw.layers pool hp
  · intro k c hc
    obtain ⟨c₀, hc₀, hkeep⟩ := hafter k c hc
    rw [hkeep.handles, hw.attached k c₀ hc₀]
    simp only [hkeep.attached]
  · intro k c hc
    obtain ⟨c₀, hc₀, hkeep⟩ := hafter k c hc
    rw [hkeep.handles]
    exact hw.live k c₀ hc₀
  · intro k c l d hc hd hne
    obtain ⟨c₀, hc₀, hkeep⟩ := hafter k c hc
    obtain ⟨d₀, hd₀, hkeep'⟩ := hafter l d hd
    rw [hkeep.handles, hkeep'.handles]
    exact hw.apart k c₀ l d₀ hc₀ hd₀ hne
  · intro l pool x s hpool hx
    obtain ⟨k, c₀, hc₀, hl⟩ := hw.held l pool x s hpool hx
    obtain ⟨c, hc, hkeep⟩ := hbefore k c₀ hc₀
    exact ⟨k, c, hc, by rw [hkeep.handles, hl]⟩

theorem act (hw : w.Owned c) {β : Type} {f : Agent → StatePools → Outcome β × Agent × StatePools}
    (hf : Agent.IsLocal f) (id : Uuid) : (w.act id f).2.Owned c := by
  unfold Society.act
  cases hl : w.locate id with
  | error e => exact hw
  | ok r =>
    obtain ⟨h, a⟩ := r
    have ha := get?_of_locate hl
    obtain ⟨states, hv⟩ := hw.live h a ha
    obtain ⟨out, b, next, hkeep, -, hact, -⟩ := hf a w.pools w.pools states hv hv
    simp only [hact]
    exact (hw.of_kept putAll_kept).set ha hkeep

/-! ### Counting -/

/-- In each layer, the slots in use are those that the agents hold. -/
theorem held_perm (hw : w.Owned c) {l : Nat} {pool : SlotPool CellState}
    (hl : w.pools.layers[l]? = some pool) :
    (pool.entries.map Prod.fst).Perm (w.agents.entries.filterMap fun e => e.2.handles[l]?) := by
  refine (List.perm_ext_iff_of_nodup SlotPool.nodup_entries ?_).mpr fun x => ?_
  · refine List.pairwise_filterMap.mpr ?_
    refine (List.pairwise_map.mp SlotPool.nodup_entries).imp_of_mem ?_
    rintro ⟨h, a⟩ ⟨k, b⟩ ha hb hne x hx y hy
    exact hw.apart h a k b (SlotPool.mem_entries.mp ha) (SlotPool.mem_entries.mp hb) hne l x y hx hy
  · simp only [List.mem_map, List.mem_filterMap, Prod.exists, exists_and_right, exists_eq_right,
      SlotPool.mem_entries]
    constructor
    · rintro ⟨s, hs⟩
      exact hw.held l pool x s hl hs
    · rintro ⟨h, a, ha, hx⟩
      obtain ⟨states, hv⟩ := hw.live h a ha
      obtain ⟨pool', s, hpool, -, hs⟩ := hv.getElem? hx
      rw [hl] at hpool
      cases hpool
      exact ⟨s, hs⟩

theorem layer_size (hw : w.Owned c) {pool : SlotPool CellState} (hp : pool ∈ w.pools.layers) :
    pool.size = w.attachedCount := by
  obtain ⟨l, hlt, rfl⟩ := List.getElem_of_mem hp
  have hperm := (hw.held_perm (List.getElem?_eq_getElem hlt)).length_eq
  rw [List.length_map, List.length_filterMap_eq_countP] at hperm
  rw [(hw.layers _ hp).1.size_eq, hperm]
  refine List.countP_congr fun e he => ?_
  have hlen := hw.attached e.1 e.2 (SlotPool.mem_entries.mp he)
  simp only [decide_eq_true_eq, isSome_getElem?, hlen]
  split
  · next hb => simp [hb]
  · next hb => simp [hb, hlt]

/-- As long as there is room for another agent, there is room for its states. -/
theorem layers_room (hw : w.Owned c) (hf : w.agents.isFull = false) {pool : SlotPool CellState}
    (hp : pool ∈ w.pools.layers) : pool.isFull = false := by
  obtain ⟨ht, hc⟩ := hw.layers pool hp
  rw [Bool.eq_false_iff, Ne, ht.isFull_iff, hw.layer_size hp, hc]
  rw [Bool.eq_false_iff, Ne, hw.tight.isFull_iff] at hf
  have hle := attachedCount_le w
  have hsize := hw.tight.size_le
  rw [← hw.tight.size_eq] at hle
  omega

/-! ### Adding and removing an agent -/

theorem add (hw : w.Owned c) {agents : SlotPool Agent} (hins : SlotPool.Inserted w.agents a h agents)
    (hid : w.index.lookup a.id = none) {layers : List (SlotPool CellState)}
    (hd : Drawn w.pools.layers a.handles layers) {states : List CellState}
    (hv : Sees layers a.handles states)
    (hn : a.handles.length = if a.binding = .detached then 0 else w.pools.layers.length) :
    { w with pools := ⟨layers⟩, agents, index := (a.id, h) :: w.index }.Owned c := by
  have hother : ∀ k b, w.agents.get? k = some b → k ≠ h := fun k b hb hkh => hins.fresh k b hb (hkh ▸ rfl)
  have hafter : ∀ k b, agents.get? k = some b → (k = h ∧ b = a) ∨ w.agents.get? k = some b := by
    intro k b hb
    rw [hins.get?] at hb
    split at hb
    · next hk =>
      cases hb
      exact .inl ⟨hk, rfl⟩
    · exact .inr hb
  have hbefore : ∀ k b, w.agents.get? k = some b → agents.get? k = some b := by
    intro k b hb
    rw [hins.get?, if_neg (hother k b hb), hb]
  have hself : agents.get? h = some a := hins.get?_self
  refine ⟨hw.config, hw.stack, hins.capacity.trans hw.capacity, hins.name.trans hw.name, hins.tight, ?_, ?_,
    ?_, ?_, hd.length_eq.trans hw.depth, ?_, ?_, ?_, ?_⟩
  · intro id k hk
    simp only [List.lookup_cons] at hk
    split at hk
    · next heq =>
      cases hk
      exact ⟨a, hself, (beq_iff_eq.mp heq).symm⟩
    · obtain ⟨b, hb, hid⟩ := hw.located id k hk
      exact ⟨b, hbefore k b hb, hid⟩
  · intro k b hb
    rcases hafter k b hb with ⟨rfl, rfl⟩ | hb
    · simp
    · have hlook := hw.indexed k b hb
      have hne : (b.id == a.id) = false := by
        rw [beq_eq_false_iff_ne]
        intro heq
        rw [heq, hid] at hlook
        cases hlook
      simp only [List.lookup_cons, hne, hlook]
  · refine List.nodup_cons.mpr ⟨fun hm => ?_, hw.nodup⟩
    obtain ⟨e, he, hea⟩ := List.mem_map.mp hm
    have := List.lookup_eq_none_iff.mp hid e he
    simp [hea] at this
  · intro q hq
    obtain ⟨p, hp, -, hc, htight⟩ := hd.mem hq
    obtain ⟨ht, hcap⟩ := hw.layers p hp
    exact ⟨htight ht, by rw [hc, hcap, hins.capacity]⟩
  · intro k b hb
    simp only [hd.length_eq]
    rcases hafter k b hb with ⟨rfl, rfl⟩ | hb
    · exact hn
    · exact hw.attached k b hb
  · intro k b hb
    rcases hafter k b hb with ⟨rfl, rfl⟩ | hb
    · exact ⟨states, hv⟩
    · obtain ⟨seen, hb⟩ := hw.live k b hb
      exact ⟨seen, (hd.sees hb).1⟩
  · intro k b l c hb hc hne
    rcases hafter k b hb with ⟨rfl, rfl⟩ | hb₀ <;> rcases hafter l c hc with ⟨rfl, rfl⟩ | hc₀
    · exact absurd rfl hne
    · obtain ⟨seen, hseen⟩ := hw.live l c hc₀
      exact (hd.sees hseen).2
    · obtain ⟨seen, hseen⟩ := hw.live k b hb₀
      exact (hd.sees hseen).2.symm
    · exact hw.apart k b l c hb₀ hc₀ hne
  · intro l q x s hq hx
    rcases hd.get? hq hx with hl | ⟨p, hp, hx⟩
    · exact ⟨h, a, hself, hl⟩
    · obtain ⟨k, b, hb, hl⟩ := hw.held l p x s hp hx
      exact ⟨k, b, hbefore k b hb, hl⟩

theorem lookup_filter (index : List (Uuid × Handle)) (id id' : Uuid) :
    (index.filter fun e => e.1 != id).lookup id' = if id' = id then none else index.lookup id' := by
  induction index with
  | nil => simp
  | cons e index ih =>
    obtain ⟨i, k⟩ := e
    rw [List.filter_cons]
    by_cases hi : i = id
    · subst hi
      simp only [bne_self_eq_false, Bool.false_eq_true, if_false, ih, List.lookup_cons]
      by_cases hid : id' = i
      · simp [hid]
      · have hid' : (id' == i) = false := by simpa using hid
        simp [hid, hid']
    · have hi' : (i != id) = true := by simpa using hi
      simp only [hi', if_true, List.lookup_cons, ih]
      by_cases hid : id' = i
      · subst hid
        simp [hi]
      · have hid' : (id' == i) = false := by simpa using hid
        simp [hid']

theorem drop (hw : w.Owned c) (ha : w.agents.get? h = some a) {agents : SlotPool Agent}
    (hrem : SlotPool.Removed w.agents h agents) :
    { w with
      index := w.index.filter fun e => e.1 != a.id
      agents
      pools := w.pools.release a.handles }.Owned c := by
  obtain ⟨states, hv⟩ := hw.live h a ha
  have hr : Released w.pools.layers a.handles (w.pools.release a.handles).layers :=
    releaseAll_released (fun pool hp => (hw.layers pool hp).1) hv
  have hafter : ∀ k b, agents.get? k = some b → k ≠ h ∧ w.agents.get? k = some b := by
    intro k b hb
    rw [hrem.get?] at hb
    split at hb
    · cases hb
    · next hk => exact ⟨hk, hb⟩
  refine ⟨hw.config, hw.stack, hrem.capacity.trans hw.capacity, hrem.name.trans hw.name, hrem.tight, ?_, ?_,
    hw.nodup.sublist (List.filter_sublist.map _), ?_, ?_, ?_, ?_, ?_, ?_⟩
  · intro id k hk
    rw [lookup_filter] at hk
    split at hk
    · cases hk
    · next hne =>
      obtain ⟨b, hb, rfl⟩ := hw.located id k hk
      refine ⟨b, ?_, rfl⟩
      rw [hrem.get?, if_neg, hb]
      rintro rfl
      rw [ha] at hb
      cases hb
      exact hne rfl
  · intro k b hb
    obtain ⟨hk, hb⟩ := hafter k b hb
    rw [lookup_filter, if_neg, hw.indexed k b hb]
    intro hid
    have hlook := hw.indexed k b hb
    rw [hid, hw.indexed h a ha] at hlook
    exact hk (Option.some.inj hlook).symm
  · intro q hq
    obtain ⟨p, hp, -, hc, htight⟩ := hr.mem hq
    obtain ⟨ht, hcap⟩ := hw.layers p hp
    exact ⟨htight ht, by rw [hc, hcap, hrem.capacity]⟩
  · exact hr.length_eq.trans hw.depth
  · intro k b hb
    rw [hr.length_eq]
    exact hw.attached k b (hafter k b hb).2
  · intro k b hb
    obtain ⟨hk, hb⟩ := hafter k b hb
    obtain ⟨seen, hseen⟩ := hw.live k b hb
    exact ⟨seen, hr.sees (hw.apart h a k b ha hb (Ne.symm hk)) hseen⟩
  · intro k b l c hb hc hne
    exact hw.apart k b l c (hafter k b hb).2 (hafter l c hc).2 hne
  · intro l q x s hq hx
    obtain ⟨hnot, p, hp, hx⟩ := hr.get? hq hx
    obtain ⟨k, b, hb, hl⟩ := hw.held l p x s hp hx
    refine ⟨k, b, ?_, hl⟩
    rw [hrem.get?, if_neg, hb]
    rintro rfl
    rw [ha] at hb
    cases hb
    exact hnot hl

/-! ### Requests -/

/-- A spawn adds a new agent with states of its own, or leaves all as it was. -/
theorem spawnWith_cases (hw : w.Owned c) (p : Profile) (binding : Binding) :
    (∃ e layers, w.spawnWith p binding = (.error e, { w with pools := ⟨layers⟩ }) ∧
      e.concernsSlots = false ∧ Same w.pools.layers layers) ∨
    ∃ a b h handles agents layers,
      w.spawnWith p binding =
        (.ok p.id, { w with pools := ⟨layers⟩, agents, index := (p.id, h) :: w.index }) ∧
      w.index.lookup p.id = none ∧
      Agent.assemble p binding (Agent.initialController binding w.controller) handles b w.config = .ok a ∧
      SlotPool.Inserted w.agents a h agents ∧ Drawn w.pools.layers handles layers ∧
      Sees layers handles (Agent.initialStates binding w.controller) := by
  have ht : ∀ pool ∈ w.pools.layers, pool.Tight := fun pool hp => (hw.layers pool hp).1
  unfold spawnWith
  split
  · exact .inl ⟨_, w.pools.layers, rfl, rfl, same_refl ht⟩
  next hnew =>
  split
  · refine .inl ⟨_, w.pools.layers, rfl, ?_, same_refl ht⟩
    rw [hw.name]
    rfl
  next hroom =>
  have hsafe := SlotSafe.spawn ht (fun pool hp => hw.layers_room (by simpa using hroom) hp) p binding
    w.controller w.config
  rcases Agent.spawn_cases p binding w.config ht hw.depth with
    ⟨e, pools, hspawn, hsame⟩ | ⟨a, b, handles, pools, hspawn, hass, hdrawn, hsees⟩
  · rw [hspawn] at hsafe ⊢
    exact .inl ⟨e, pools.layers, rfl, hsafe e rfl, hsame⟩
  · obtain ⟨h, agents, hinsert⟩ := SlotPool.insert_ok hw.tight (by simpa using hroom) a
    have hlook : w.index.lookup p.id = none := Option.not_isSome_iff_eq_none.mp hnew
    rw [hspawn]
    simp only [hinsert]
    exact .inr ⟨a, b, h, handles, agents, pools.layers, rfl, hlook, hass, hw.tight.inserted hinsert,
      hdrawn, hsees⟩

theorem spawnWith (hw : w.Owned c) (p : Profile) (binding : Binding) : (w.spawnWith p binding).2.Owned c := by
  rcases hw.spawnWith_cases p binding with ⟨e, layers, heq, -, hsame⟩ |
    ⟨a, b, h, handles, agents, layers, heq, hlook, hass, hins, hdrawn, hsees⟩
  · rw [heq]
    exact hw.of_kept hsame.kept
  · obtain ⟨budget, memory, consolidator, -, -, rfl⟩ := Agent.assemble_cases hass
    rw [heq]
    refine hw.add hins hlook hdrawn hsees ?_
    have hlen := hsees.length_eq
    dsimp only
    rw [← hlen, Agent.initialStates]
    split
    · rfl
    · rw [List.length_map, hw.depth]

theorem despawn_eq (hw : w.Owned c) (hid : w.index.lookup id = some h) :
    ∃ a agents, w.agents.get? h = some a ∧ a.id = id ∧ SlotPool.Removed w.agents h agents ∧
      w.despawn id = (.ok (), { w with
        index := w.index.filter fun e => e.1 != id
        agents
        pools := w.pools.release a.handles }) := by
  obtain ⟨a, ha, rfl⟩ := hw.located id h hid
  obtain ⟨agents, hremove, hrem⟩ := hw.tight.removed ha
  refine ⟨a, agents, ha, rfl, hrem, ?_⟩
  simp only [Society.despawn, handle, hid, hremove]

theorem despawn (hw : w.Owned c) (id : Uuid) :
    SlotSafe (w.despawn id).1 ∧ (w.despawn id).2.Owned c := by
  rcases handle_cases w id with ⟨-, hh⟩ | ⟨h, hid, -⟩
  · simp only [Society.despawn, hh]
    exact ⟨.error rfl, hw⟩
  · obtain ⟨a, agents, ha, rfl, hrem, heq⟩ := hw.despawn_eq hid
    rw [heq]
    exact ⟨.ok (), hw.drop ha hrem⟩

/-- An operation on one agent fails only as it fails on agents whose states are there. -/
theorem act_slotSafe (hw : w.Owned c) {β : Type} {f : Agent → StatePools → Outcome β × Agent × StatePools}
    (hf : ∀ a states, Sees w.pools.layers a.handles states → SlotSafe (f a w.pools).1) (id : Uuid) :
    SlotSafe (w.act id f).1 := by
  unfold Society.act
  rcases handle_cases w id with ⟨-, hh⟩ | ⟨h, hid, -⟩
  · have hl : w.locate id = .error (.unknownAgent id) := by
      simp only [Society.locate, hh]
      rfl
    simp only [hl]
    exact .error rfl
  · obtain ⟨a, states, hl, -, -, hv⟩ := hw.locate hid
    simp only [hl]
    exact hf a states hv

theorem tick (hw : w.Owned c) (id : Uuid) (s : Senses) (e : Encounter) (dt : Float32) (taskId : Uuid) :
    SlotSafe (w.tick id s e dt taskId).1 ∧ (w.tick id s e dt taskId).2.Owned c := by
  obtain ⟨board, heq, -⟩ := tick_eq_act w id s e dt taskId
  rw [heq]
  refine ⟨hw.act_slotSafe (fun a states _ => ?_) id,
    (hw.act (Agent.isLocal_tickAct (w.surroundings taskId) s e dt) id).board board⟩
  have htick := SlotSafe.tick a (w.surroundings taskId) w.pools s e dt
  unfold Agent.tickAct
  cases h : a.tick (w.surroundings taskId) w.pools s e dt with
  | error err => exact .error (htick err h)
  | ok r => exact .ok _

theorem tickAll (hw : w.Owned c) (dt : Float32) (frames : List Frame) :
    SlotSafe (w.tickAll dt frames).1 ∧ (w.tickAll dt frames).2.Owned c := by
  induction frames generalizing w with
  | nil => exact ⟨.ok (), hw⟩
  | cons f rest ih =>
    obtain ⟨hsafe, howned⟩ := hw.tick f.id f.senses f.encounter dt f.taskId
    unfold Society.tickAll
    generalize w.tick f.id f.senses f.encounter dt f.taskId = r at hsafe howned ⊢
    rcases r with ⟨_ | _, w'⟩
    · exact ⟨.error (hsafe _ rfl), howned⟩
    · exact ih howned

theorem update (hw : w.Owned c) (frames : List Frame) (dt : Float32) :
    SlotSafe (w.update frames dt).1 ∧ (w.update frames dt).2.Owned c := by
  rcases w.update_cases frames dt with ⟨-, hup⟩ | ⟨f, -, -, hup⟩ <;> rw [hup]
  · exact hw.tickAll dt frames
  · exact ⟨.error rfl, hw⟩

theorem load (hw : w.Owned c) (s : Snapshot) : SlotSafe (w.load s).1 ∧ (w.load s).2.Owned c := by
  unfold Society.load
  cases hc : s.checkCompatible w.controller with
  | error e => exact ⟨.error (SlotSafe.checkCompatible _ _ e hc), hw⟩
  | ok _ =>
    have hspawned := hw.spawnWith s.profile s.binding
    rcases hw.spawnWith_cases s.profile s.binding with ⟨e, layers, heq, hsafe, -⟩ |
      ⟨a, b, h, handles, agents, layers, heq, -⟩
    · rw [heq] at hspawned ⊢
      exact ⟨.error hsafe, hspawned⟩
    · rw [heq] at hspawned ⊢
      dsimp only
      rw [restore_eq_act]
      have hrestored := hspawned.act (Agent.isLocal_restore s) s.profile.id
      have hsafe := hspawned.act_slotSafe (fun b states hv => SlotSafe.restore hv s) s.profile.id
      generalize Society.act _ s.profile.id _ = r at hrestored hsafe ⊢
      rcases r with ⟨_ | _, w'⟩
      · obtain ⟨hsafe', howned⟩ := hrestored.despawn s.profile.id
        dsimp only
        generalize w'.despawn s.profile.id = r at hsafe' howned ⊢
        rcases r with ⟨_ | _, w''⟩
        · exact ⟨.error (hsafe' _ rfl), howned⟩
        · exact ⟨.error (hsafe _ rfl), howned⟩
      · exact ⟨.ok _, hrestored⟩

theorem save (hw : w.Owned c) (id : Uuid) : SlotSafe (w.save id) := by
  rcases handle_cases w id with ⟨-, hh⟩ | ⟨h, hid, hh⟩
  · simp only [Society.save, agent, hh]
    exact .error rfl
  · obtain ⟨a, ha, -⟩ := hw.located id h hid
    obtain ⟨states, hv⟩ := hw.live h a ha
    simp only [Society.save, agent, hh, bind, Except.bind, SlotPool.get_eq_ok.mpr ha]
    unfold Agent.snapshot
    rw [records_eq hv]
    exact (SlotSafe.record a.memory).bind fun _ => .ok _

/-- **A request leaves everything accounted for**, and none fails over the bookkeeping of slots. -/
theorem serve (hw : w.Owned c) (r : Request) : SlotSafe (w.serve r).1 ∧ (w.serve r).2.Owned c := by
  have hspawn (p : Profile) (binding : Binding) : SlotSafe (w.spawnWith p binding).1 := by
    rcases hw.spawnWith_cases p binding with ⟨e, layers, heq, hsafe, -⟩ | ⟨a, b, h, handles, agents,
      layers, heq, -⟩ <;> rw [heq]
    · exact .error hsafe
    · exact .ok _
  cases r with
  | spawn p => exact ⟨(hspawn p _).map _, hw.spawnWith p _⟩
  | spawnWith p binding => exact ⟨(hspawn p binding).map _, hw.spawnWith p binding⟩
  | despawn id => exact ⟨(hw.despawn id).1.map _, (hw.despawn id).2⟩
  | tick id s e dt taskId => exact ⟨(hw.tick id s e dt taskId).1.map _, (hw.tick id s e dt taskId).2⟩
  | update frames dt => exact ⟨(hw.update frames dt).1.map _, (hw.update frames dt).2⟩
  | reset id =>
    simp only [Society.serve, answer, reset_eq_act]
    refine ⟨(hw.act_slotSafe (fun a states hv => ?_) id).map _, hw.act Agent.isLocal_resetAct id⟩
    simp only [Agent.resetAct, Agent.reset, StatePools.reset_eq hv]
    exact .ok ()
  | reinforce id reward =>
    simp only [Society.serve, answer, reinforce_eq_act]
    refine ⟨(hw.act_slotSafe (fun a states hv => ?_) id).map _,
      hw.act (Agent.isLocal_reinforceAct w.config reward) id⟩
    have hsafe := SlotSafe.reinforce hv w.config reward
    unfold Agent.reinforceAct
    cases h : a.reinforce w.pools w.config reward with
    | error e => exact .error (hsafe e h)
    | ok r => exact .ok _
  | shiftRelationship id change =>
    simp only [Society.serve, answer, shiftRelationship_eq_act]
    exact ⟨(hw.act_slotSafe (fun a states hv => .ok _) id).map _, hw.act (Agent.isLocal_shiftAct change) id⟩
  | save id => exact ⟨(hw.save id).map _, hw⟩
  | load s => exact ⟨(hw.load s).1.map _, (hw.load s).2⟩
  | clearGossip => exact ⟨.ok _, hw.board _⟩
  | restoreGossip r =>
    have hrestore : SlotSafe (w.restoreGossip r) := by
      unfold Society.restoreGossip
      split
      · exact .error rfl
      · exact ((SlotSafe.memoryRestore _ _).bind fun _ => .ok _).bind fun _ => .ok _
    cases h : w.restoreGossip r with
    | error e =>
      simp only [Society.serve, h]
      exact ⟨.error (hrestore e h), hw⟩
    | ok w' =>
      simp only [Society.serve, h]
      unfold Society.restoreGossip at h
      split at h
      · cases h
      · obtain ⟨b, -, h⟩ := ok_of_bind h
        cases h
        exact ⟨.ok _, hw.board _⟩

/-! ### Identities and agents -/

/-- As many identities as agents. -/
theorem ids_length (hw : w.Owned c) : w.ids.length = w.size := by
  have hperm : w.ids.Perm (w.agents.entries.map fun e => e.2.id) := by
    refine (List.perm_ext_iff_of_nodup hw.nodup ?_).mpr fun id => ?_
    · refine List.pairwise_map.mpr ((List.pairwise_map.mp SlotPool.nodup_entries).imp_of_mem ?_)
      rintro ⟨h, a⟩ ⟨k, b⟩ ha hb hne hid
      have hlook := hw.indexed h a (SlotPool.mem_entries.mp ha)
      rw [show a.id = b.id from hid, hw.indexed k b (SlotPool.mem_entries.mp hb)] at hlook
      exact hne (Option.some.inj hlook).symm
    · simp only [List.mem_map, Prod.exists, SlotPool.mem_entries]
      constructor
      · intro hid
        obtain ⟨h, hlook⟩ : ∃ h, w.index.lookup id = some h := by
          refine Option.ne_none_iff_exists'.mp fun hnone => ?_
          obtain ⟨e, he, rfl⟩ := List.mem_map.mp hid
          simpa using List.lookup_eq_none_iff.mp hnone e he
        obtain ⟨a, ha, hid⟩ := hw.located id h hlook
        exact ⟨h, a, ha, hid⟩
      · rintro ⟨h, a, ha, rfl⟩
        refine List.mem_map.mpr ?_
        by_contra hnot
        have hnone : w.index.lookup a.id = none := by
          refine List.lookup_eq_none_iff.mpr fun e he => ?_
          rw [bne_iff_ne]
          exact fun heq => hnot ⟨e, he, heq.symm⟩
        rw [hw.indexed h a ha] at hnone
        cases hnone
  rw [hperm.length_eq, List.length_map, size, hw.tight.size_eq]

end Owned

/-! ### The start -/

/-- What a society is made of. -/
theorem ofConfig_cases {detected : Backend} (hw : ofConfig c detected = .ok w) :
    ∃ controller board, c.validate = .ok () ∧
      Stack.ofConfig (controllerInputWidth c.memory.width) c.controller = .ok controller ∧
      boardOf c = .ok board ∧
      w = {
        config := c
        controller
        pools := .ofCapacity controller.layers.length c.limits.maxAgents
        agents := .ofCapacity "agent pool" c.limits.maxAgents
        board
        backend := c.numerics.backend.resolve detected } := by
  unfold ofConfig at hw
  obtain ⟨⟨⟩, hvalid, hw⟩ := ok_of_bind hw
  obtain ⟨controller, hstack, hw⟩ := ok_of_bind hw
  obtain ⟨pools, hpools, hw⟩ := ok_of_bind hw
  obtain ⟨board, hboard, hw⟩ := ok_of_bind hw
  have hp : pools = .ofCapacity controller.layers.length c.limits.maxAgents := by
    unfold allocate at hpools
    obtain ⟨-, -, hpools⟩ := ok_of_bind hpools
    split at hpools
    · next hzero =>
      cases hpools
      rw [hzero]
      rfl
    · obtain ⟨-, -, hpools⟩ := ok_of_bind hpools
      cases hpools
      rfl
  cases hw
  exact ⟨controller, board, hvalid, hstack, hboard, by rw [hp]⟩

theorem owned_ofConfig {detected : Backend} (hw : ofConfig c detected = .ok w) : w.Owned c := by
  obtain ⟨controller, board, -, hstack, -, rfl⟩ := ofConfig_cases hw
  have hempty : ∀ h a,
      (SlotPool.ofCapacity "agent pool" c.limits.maxAgents : SlotPool Agent).get? h = some a → False := by
    intro h a ha
    rw [SlotPool.get?_ofCapacity] at ha
    cases ha
  refine ⟨rfl, hstack, by simp [SlotPool.capacity, SlotPool.ofCapacity], rfl, SlotPool.tight_ofCapacity _ _, ?_,
    fun h a ha => (hempty h a ha).elim, List.nodup_nil, ?_, by simp [StatePools.ofCapacity],
    fun h a ha => (hempty h a ha).elim, fun h a ha => (hempty h a ha).elim,
    fun h a k b ha => (hempty h a ha).elim, ?_⟩
  · intro id h hid
    cases hid
  · intro pool hp
    rw [List.eq_of_mem_replicate hp]
    exact ⟨SlotPool.tight_ofCapacity _ _, by simp [SlotPool.capacity, SlotPool.ofCapacity]⟩
  · intro l pool x s hpool hx
    rw [List.eq_of_mem_replicate (List.mem_of_getElem? hpool), SlotPool.get?_ofCapacity] at hx
    cases hx

end Society

theorem Reachable.owned {c : Config} {w : Society} (hw : Reachable c w) : w.Owned c := by
  induction hw with
  | start _ h => exact Society.owned_ofConfig h
  | next r _ ih => exact (ih.serve r).2

theorem Stack.length_layersFrom {c : Config.Controller} {sizes : List Nat} {inputSize number : Nat}
    {layers : List Cell} (h : layersFrom c inputSize number sizes = .ok layers) :
    layers.length = sizes.length := by
  induction sizes generalizing inputSize number layers with
  | nil =>
    cases h
    rfl
  | cons n rest ih =>
    unfold layersFrom at h
    obtain ⟨cell, -, h⟩ := ok_of_bind h
    obtain ⟨cells, hcells, h⟩ := ok_of_bind h
    cases h
    rw [List.length_cons, List.length_cons, ih hcells]

namespace Society.Owned

variable {c : Config} {w : Society}

theorem layer_count (hw : w.Owned c) : w.pools.layers.length = c.controller.hiddenSizes.length := by
  have h := hw.stack
  unfold Stack.ofConfig at h
  split at h
  · cases h
  · obtain ⟨layers, hlayers, h⟩ := ok_of_bind h
    have hstack : w.controller.layers = layers := by rw [← Except.ok.inj h]
    rw [hw.depth, hstack, Stack.length_layersFrom hlayers]

theorem live_handle (hw : w.Owned c) {h x : Handle} {a : Agent} {l : Nat} (ha : w.agents.get? h = some a)
    (hx : a.handles[l]? = some x) : ∃ pool s, w.pools.layers[l]? = some pool ∧ pool.get? x = some s := by
  obtain ⟨states, hv⟩ := hw.live h a ha
  obtain ⟨pool, s, hpool, -, hs⟩ := hv.getElem? hx
  exact ⟨pool, s, hpool, hs⟩

/-- Handles of different agents differ in the slot, not only in its generation. -/
theorem index_ne (hw : w.Owned c) {h k x y : Handle} {a b : Agent} {l : Nat} (ha : w.agents.get? h = some a)
    (hb : w.agents.get? k = some b) (hne : h ≠ k) (hx : a.handles[l]? = some x)
    (hy : b.handles[l]? = some y) : x.index ≠ y.index := by
  intro hindex
  obtain ⟨pool, s, hpool, hs⟩ := hw.live_handle ha hx
  obtain ⟨pool', s', hpool', hs'⟩ := hw.live_handle hb hy
  rw [hpool] at hpool'
  cases hpool'
  exact hw.apart h a k b ha hb hne l x y hx hy (SlotPool.eq_of_index hs hs' hindex)

theorem room (hw : w.Owned c) (p : Profile) (binding : Binding) (n : Nat) :
    (w.spawnWith p binding).1 ≠ .error (.exhausted "controller state pool" n) := by
  intro hr
  have hserve : (w.serve (.spawnWith p binding)).1 = .error (.exhausted "controller state pool" n) := by
    simp only [Society.serve, Society.answer, hr]
    rfl
  have := (hw.serve (.spawnWith p binding)).1 _ hserve
  cases this

end Society.Owned

/-- Every slot of a society of that configuration has its place and its owner. -/
structure Society.AccountedFor (c : Config) (w : Society) : Prop where
  /-- The index leads from each identity to the live slot of the agent that has it in its profile, and to
  every live slot from exactly one identity. -/
  index : (∀ id h, w.index.lookup id = some h ↔ ∃ a, w.agents.get? h = some a ∧ a.profile.id = id) ∧
    w.ids.Nodup
  /-- There is one pool of states for each layer of the controller. -/
  layers : w.pools.layers.length = c.controller.hiddenSizes.length
  /-- A detached agent holds no states, any other one live handle in each layer. -/
  handles : ∀ h a, w.agents.get? h = some a →
    if a.binding = .detached then a.handles = []
    else a.handles.length = w.pools.layers.length ∧ ∀ (l : Nat) x, a.handles[l]? = some x →
      ∃ pool s, w.pools.layers[l]? = some pool ∧ pool.get? x = some s
  /-- No two agents hold the same slot of a layer. -/
  unshared : ∀ h a k b, w.agents.get? h = some a → w.agents.get? k = some b → h ≠ k →
    ∀ (l : Nat) x y, a.handles[l]? = some x → b.handles[l]? = some y → x.index ≠ y.index
  /-- Every live slot of a layer belongs to an agent. -/
  held : ∀ (l : Nat) pool x s, w.pools.layers[l]? = some pool → pool.get? x = some s →
    ∃ h a, w.agents.get? h = some a ∧ a.handles[l]? = some x
  /-- Slots are numbered by 32-bit words. -/
  words : (∀ h a, w.agents.get? h = some a → h.index < UInt32.size) ∧
    ∀ pool ∈ w.pools.layers, ∀ x s, pool.get? x = some s → x.index < UInt32.size
  /-- As many slots are in use in each layer as there are agents that are not detached. -/
  counts : (∀ pool ∈ w.pools.layers, pool.size = w.attachedCount) ∧ w.attachedCount ≤ w.size ∧
    w.size = w.ids.length ∧ w.size ≤ c.limits.maxAgents
  /-- No request finds that a handle outlived its slot. -/
  fresh : ∀ r i, (w.serve r).1 ≠ .error (.staleHandle i)
  /-- There is room for a controller's states as long as there is room for its agent. -/
  room : ∀ p binding n, w.agents.isFull = false →
    (w.spawnWith p binding).1 ≠ .error (.exhausted "controller state pool" n)

/-- **Every slot is accounted for after any requests**, whether they succeed or fail. In every reachable society `w`
of a configuration `c` whose `maxAgents` fits 32 bits, `w.index` leads one to one from the identities to the live
slots of the agents, there is a pool for each layer, each agent that is not detached holds one live slot of every pool
and no two of them the same one, and every live slot of a pool is held (`Society.AccountedFor`). -/
theorem Reachable.accounted_for {c : Config} {w : Society} (hw : Reachable c w)
    (hmax : c.limits.maxAgents < UInt32.size) : w.AccountedFor c := by
  have ho := hw.owned
  refine ⟨⟨fun id h => ⟨ho.located id h, ?_⟩, ho.nodup⟩, ho.layer_count, ?_,
    fun h a k b ha hb hne l x y => ho.index_ne ha hb hne, ho.held, ⟨?_, ?_⟩,
    ⟨fun pool => ho.layer_size, ?_, ho.ids_length.symm, ho.capacity ▸ ho.tight.size_le⟩, ?_,
    fun p binding n _ => ho.room p binding n⟩
  · rintro ⟨a, ha, rfl⟩
    exact ho.indexed h a ha
  · intro h a ha
    have hlen := ho.attached h a ha
    split
    · next hb =>
      rw [if_pos hb] at hlen
      exact List.length_eq_zero_iff.mp hlen
    · next hb =>
      rw [if_neg hb] at hlen
      exact ⟨hlen, fun l x => ho.live_handle ha⟩
  · intro h a ha
    have := SlotPool.index_lt ha
    rw [ho.capacity] at this
    omega
  · intro pool hp x s hx
    have := SlotPool.index_lt hx
    rw [(ho.layers pool hp).2, ho.capacity] at this
    omega
  · rw [Society.size, ho.tight.size_eq]
    exact w.attachedCount_le
  · intro r i hr
    have := (ho.serve r).1 _ hr
    cases this

/-- A society of three agents at most, which one left after two had come. Its slot went to a third one, under the
next generation; the second is detached. -/
theorem accounted_for_after_despawn : ∃ w, Reachable { limits := { maxAgents := 3 } } w ∧
    w.index = [(⟨5, 6⟩, ⟨0, 1⟩), (⟨3, 4⟩, ⟨1, 0⟩)] ∧ w.attachedCount = 1 ∧
      w.AccountedFor { limits := { maxAgents := 3 } } := by
  obtain ⟨w, hw, hindex, hcount⟩ : ∃ w, Reachable { limits := { maxAgents := 3 } } w ∧
      w.index = [(⟨5, 6⟩, ⟨0, 1⟩), (⟨3, 4⟩, ⟨1, 0⟩)] ∧ w.attachedCount = 1 :=
    ⟨_, .next (.spawn ⟨⟨5, 6⟩, "Nyx", .mystic, none⟩) (.next (.despawn ⟨1, 2⟩)
      (.next (.spawnWith ⟨⟨3, 4⟩, "Moss", .merchant, none⟩ .detached)
        (.next (.spawn ⟨⟨1, 2⟩, "Vex", .rogue, none⟩) (.start .scalar rfl)))), rfl, rfl⟩
  exact ⟨w, hw, hindex, hcount, Reachable.accounted_for hw (by decide)⟩

end NpcMind
