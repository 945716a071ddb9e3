import NpcMind.Proofs.Ownership

/-!
# What it takes to spawn an agent

Whether an agent can be built depends on the configuration and on its controller alone, as long as there is
room in the pools. So where one agent was spawned, another one can be, in any society of the configuration.
-/

namespace NpcMind

open StatePools Outcome

namespace StatePools

/-- What is charged for states does not depend on the pools they are drawn from. -/
theorem drawAll_again {cells : List Cell} {layers after others : List (SlotPool CellState)}
    {b b' : Budget} {handles : List Handle} (hd : drawAll layers cells b = (.ok handles, after, b'))
    (hl : layers.length = cells.length) (ho : others.length = cells.length)
    (hroom : ∀ pool ∈ others, pool.Tight ∧ pool.isFull = false) :
    ∃ handles' after', drawAll others cells b = (.ok handles', after', b') := by
  induction cells generalizing layers after others b handles with
  | nil =>
    obtain rfl := List.length_eq_zero_iff.mp hl
    obtain rfl := List.length_eq_zero_iff.mp ho
    simp only [drawAll] at hd
    cases hd
    exact ⟨[], [], rfl⟩
  | cons c cells ih =>
    obtain ⟨pool, layers, rfl, hl'⟩ := List.length_eq_succ_iff.mp hl
    obtain ⟨other, others, rfl, ho'⟩ := List.length_eq_succ_iff.mp ho
    obtain ⟨htight, hfree⟩ := hroom other List.mem_cons_self
    obtain ⟨h', drawn', hinsert⟩ := SlotPool.insert_ok htight hfree (.initial c.inputSize c.hiddenSize)
    rcases hcharge : CellState.charge b c.inputSize c.hiddenSize with ⟨_ | _, b₁⟩
    · simp only [drawAll, draw, hcharge] at hd
      cases hd
    rcases hfirst : pool.insert (.initial c.inputSize c.hiddenSize) with _ | ⟨h, drawn⟩
    · simp only [drawAll, draw, hcharge, hfirst] at hd
      cases hd
    rcases hrest : drawAll layers cells b₁ with ⟨_ | rest, after₁, b₂⟩
    · simp only [drawAll, draw, hcharge, hfirst, hrest] at hd
      cases hd
    simp only [drawAll, draw, hcharge, hfirst, hrest] at hd
    cases hd
    obtain ⟨rest', after', hdraw⟩ := ih hrest hl' ho' fun p hp => hroom p (List.mem_cons_of_mem _ hp)
    simp only [drawAll, draw, hcharge, hinsert, hdraw]
    exact ⟨_, _, rfl⟩

end StatePools

namespace Agent

variable {c : Config} {shared : Stack} {binding : Binding} {controller : Option Stack} {b : Budget}
  {a : Agent}

/-- What is left of an agent's budget after its states were drawn. -/
inductive Leaves (c : Config) : Option Stack → Budget → Prop
  | none : Leaves c none { capacity := c.limits.arenaFloats }
  | some {s : Stack} {layers after : List (SlotPool CellState)} {handles : List Handle} {b : Budget} :
      layers.length = s.layers.length →
      drawAll layers s.layers { capacity := c.limits.arenaFloats } = (.ok handles, after, b) →
      Leaves c (some s) b

/-- The budget suffices for an agent with that controller. -/
def Affordable (c : Config) (controller : Option Stack) : Prop :=
  ∃ b, Leaves c controller b ∧ ∀ p binding handles, ∃ a, assemble p binding controller handles b c = .ok a

theorem assemble_again {p : Profile} {handles : List Handle}
    (h : assemble p binding controller handles b c = .ok a) (p' : Profile) (binding' : Binding)
    (handles' : List Handle) : ∃ a', assemble p' binding' controller handles' b c = .ok a' := by
  unfold assemble at h ⊢
  obtain ⟨budget, hbudget, h⟩ := ok_of_bind h
  obtain ⟨memory, hmemory, h⟩ := ok_of_bind h
  obtain ⟨consolidator, hconsolidator, h⟩ := ok_of_bind h
  simp only [hbudget, hmemory, hconsolidator, bind, Except.bind]
  exact ⟨_, rfl⟩

theorem affordable_of_spawn {p : Profile} {pools pools' : StatePools}
    (h : spawn p binding shared pools c = (.ok a, pools')) :
    Affordable c (initialController binding shared) := by
  unfold spawn at h
  unfold initialController
  dsimp only at h
  split at h
  · next hb =>
    rw [if_pos hb]
    exact ⟨_, .none, assemble_again (Prod.mk.inj h).1⟩
  · next hb =>
    rw [if_neg hb]
    unfold acquire at h
    cases hsize : expectSize "state pools" pools.layers.length shared.layers.length with
    | error e =>
      rw [hsize] at h
      cases h
    | ok u =>
      simp only [hsize] at h
      rcases hdraw : drawAll pools.layers shared.layers { capacity := c.limits.arenaFloats } with
        ⟨_ | handles, layers, left⟩
      · simp only [hdraw] at h
        cases h
      · simp only [hdraw] at h
        split at h
        · next hass => exact ⟨left, .some (eq_of_expectSize hsize) hdraw, assemble_again hass⟩
        · cases h

/-- Where there is room, an agent that can be paid for is spawned. -/
theorem Affordable.spawn (h : Affordable c (initialController binding shared)) {pools : StatePools}
    (hl : pools.layers.length = shared.layers.length)
    (hroom : ∀ pool ∈ pools.layers, pool.Tight ∧ pool.isFull = false) (p : Profile) :
    ∃ a pools', Agent.spawn p binding shared pools c = (.ok a, pools') := by
  obtain ⟨left, hleft, hassemble⟩ := h
  unfold initialController at hleft hassemble
  unfold Agent.spawn
  dsimp only
  split
  · next hb =>
    rw [if_pos hb] at hleft hassemble
    cases hleft
    obtain ⟨a, ha⟩ := hassemble p binding []
    exact ⟨a, pools, by rw [ha]⟩
  · next hb =>
    rw [if_neg hb] at hleft hassemble
    cases hleft with
    | some hl₀ hdraw₀ =>
      obtain ⟨handles, layers, hdraw⟩ := drawAll_again hdraw₀ hl₀ hl hroom
      obtain ⟨a, ha⟩ := hassemble p binding handles
      simp only [acquire, hl, expectSize_ok, hdraw, ha]
      exact ⟨a, _, rfl⟩

end Agent

namespace Society

variable {c : Config} {w : Society} {p : Profile} {binding : Binding} {id : Uuid}

theorem affordable_of_spawnWith (h : (w.spawnWith p binding).1 = .ok id) :
    Agent.Affordable w.config (Agent.initialController binding w.controller) := by
  unfold spawnWith at h
  split at h
  · cases h
  · split at h
    · cases h
    · split at h
      · cases h
      · next hspawn => exact Agent.affordable_of_spawn hspawn

/-- A society with room for an agent takes in whoever is not there yet and can be paid for. -/
theorem Owned.spawnWith_of_room (hw : w.Owned c) (hnew : w.contains p.id = false)
    (hroom : w.agents.isFull = false)
    (h : Agent.Affordable c (Agent.initialController binding w.controller)) :
    (w.spawnWith p binding).1 = .ok p.id := by
  have hpools : ∀ pool ∈ w.pools.layers, pool.Tight ∧ pool.isFull = false :=
    fun pool hp => ⟨(hw.layers pool hp).1, hw.layers_room hroom hp⟩
  obtain ⟨a, pools, hspawn⟩ := h.spawn hw.depth hpools p
  obtain ⟨k, agents, hinsert⟩ := SlotPool.insert_ok hw.tight hroom a
  rw [← hw.config] at hspawn
  simp only [Society.spawnWith, hnew, hroom, hspawn, hinsert, Bool.false_eq_true, if_false]

end Society

end NpcMind
