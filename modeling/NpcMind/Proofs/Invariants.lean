import NpcMind.Proofs.Replay
import NpcMind.Proofs.Rollback

/-!
# Properties that last

A property of an agent and of its states lasts if every operation on the agent keeps it, on a board that
has some property of its own. What follows from that is proved here once for all such properties. An agent
that has the property keeps it until it is removed, whatever the society is asked for in the meantime. And
if new agents and resumed ones have it, then so has every agent of every society.
-/

namespace NpcMind

open StatePools Outcome

/-- The request removes the agent of that identity. -/
def Request.removes (id : Uuid) : Request → Bool
  | .despawn id' => id' == id
  | _ => false

/-- The request adds an agent. -/
def Request.adds : Request → Bool
  | .spawn _ | .spawnWith _ _ | .load _ => true
  | _ => false

namespace Agent

variable {β : Type}

/-- The operation leaves the agent and its states with the property, as many states as before. -/
def Retains (P : Agent → List CellState → Prop) (act : Agent → StatePools → Outcome β × Agent × StatePools)
    (a : Agent) (p : StatePools) (states : List CellState) : Prop :=
  ∃ out b next, act a p = (out, b, p.put a.handles next) ∧ next.length = states.length ∧ P b next

/-- Whatever happens to an agent with the property, it keeps it. -/
structure Lasting (c : Config) (B : Option Board → Prop) (P : Agent → List CellState → Prop) : Prop where
  tick : ∀ {env a p states} s e dt, env.config = c → env.guard = c.numerics.guard → B env.board →
    P a states → Sees p.layers a.handles states → Retains P (tickAct env s e dt) a p states
  reset : ∀ {a states}, P a states → P a.renewed (states.map CellState.reset)
  reinforce : ∀ {a b p states reward report}, P a states → a.reinforce p c reward = .ok (report, b) → P b states
  shift : ∀ {a states} change, P a states → P (a.shiftRelationship change) states

/-- New agents have the property, and so have those that were resumed from a snapshot. -/
structure Inborn (c : Config) (shared : Stack) (P : Agent → List CellState → Prop) : Prop where
  spawned : ∀ {profile binding handles left a},
    assemble profile binding (initialController binding shared) handles left c = .ok a →
    P a (initialStates binding shared)
  resumed : ∀ {a b s p states next}, P a states → Sees p.layers a.handles states →
    a.restore s p = (.ok (), b, p.put a.handles next) → next.length = states.length → P b next

variable {c : Config} {B : Option Board → Prop} {P : Agent → List CellState → Prop} {a b : Agent}
  {p : StatePools} {states next : List CellState}

theorem retains_tick {env : Surroundings} {s : Senses} {e : Encounter} {dt : Float32}
    (ht : a.tick env p s e dt = .ok (b, p.put a.handles next)) (hlen : next.length = states.length)
    (hb : P { b with gossip := none } next) : Retains P (tickAct env s e dt) a p states :=
  ⟨.ok b.decision, { b with gossip := none }, next, by simp only [tickAct, ht], hlen, hb⟩

theorem Lasting.retains_reset (hP : Lasting c B P) (ha : P a states) (hv : Sees p.layers a.handles states) :
    Retains P resetAct a p states :=
  ⟨_, _, _, resetAct_eq hv, List.length_map _, hP.reset ha⟩

/-- Reinforcing leaves the states alone, and the agent too if it fails. -/
theorem Lasting.retains_reinforce (hP : Lasting c B P) (ha : P a states) (hv : Sees p.layers a.handles states)
    (reward : Float32) : Retains P (reinforceAct c reward) a p states := by
  unfold Retains reinforceAct
  cases hr : a.reinforce p c reward with
  | error e => exact ⟨.error e, a, states, by rw [put_of_sees hv], rfl, ha⟩
  | ok r => exact ⟨.ok r.1, r.2, states, by rw [put_of_sees hv], rfl, hP.reinforce ha hr⟩

theorem Lasting.retains_shift (hP : Lasting c B P) (ha : P a states) (hv : Sees p.layers a.handles states)
    (change : Float32) : Retains P (shiftAct change) a p states :=
  ⟨_, a.shiftRelationship change, states, by rw [put_of_sees hv, shiftAct], rfl, hP.shift change ha⟩

end Agent

namespace Society

variable {c : Config} {w : Society} {id : Uuid} {a : Agent} {states : List CellState} {β : Type}
  {f : Agent → StatePools → Outcome β × Agent × StatePools} {B : Option Board → Prop}
  {P : Agent → List CellState → Prop}

/-- Whatever happens to a board with the property, it keeps it. -/
structure Enduring (B : Option Board → Prop) : Prop where
  told : ∀ {board board'}, B board → Told board board' → B board'
  clear : ∀ {board}, B board → B (board.map Board.clear)
  restore : ∀ {b b' r}, B (some b) → b.restore r = .ok b' → B (some b')

/-! ### The board -/

theorem Enduring.tick (hB : Enduring B) (hb : B w.board) (id : Uuid) (s : Senses) (e : Encounter)
    (dt : Float32) (taskId : Uuid) : B (w.tick id s e dt taskId).2.board := by
  obtain ⟨board, heq, htold⟩ := tick_eq_act w id s e dt taskId
  rw [heq]
  exact hB.told hb htold

theorem Enduring.tickAll (hB : Enduring B) (hb : B w.board) (dt : Float32) (frames : List Frame) :
    B (w.tickAll dt frames).2.board := by
  induction frames generalizing w with
  | nil => exact hb
  | cons f rest ih =>
    have htick := hB.tick hb f.id f.senses f.encounter dt f.taskId
    unfold Society.tickAll
    generalize w.tick f.id f.senses f.encounter dt f.taskId = r at htick ⊢
    obtain ⟨_ | _, w₁⟩ := r
    · exact htick
    · exact ih htick

theorem Enduring.serve (hB : Enduring B) (hb : B w.board) (r : Request) : B (w.serve r).2.board := by
  cases r with
  | spawn p => exact (w.spawnWith_board p _).symm ▸ hb
  | spawnWith p binding => exact (w.spawnWith_board p binding).symm ▸ hb
  | despawn id => exact (w.despawn_board id).symm ▸ hb
  | tick id s e dt taskId => exact hB.tick hb id s e dt taskId
  | update frames dt =>
    simp only [Society.serve]
    rcases w.update_cases frames dt with ⟨-, heq⟩ | ⟨f, -, -, heq⟩ <;> rw [heq]
    · exact hB.tickAll hb dt frames
    · exact hb
  | reset id =>
    simp only [Society.serve, answer, reset_eq_act, act_board]
    exact hb
  | reinforce id reward =>
    simp only [Society.serve, answer, reinforce_eq_act, act_board]
    exact hb
  | shiftRelationship id change =>
    simp only [Society.serve, answer, shiftRelationship_eq_act, act_board]
    exact hb
  | save id => exact hb
  | load s => exact (w.load_board s).symm ▸ hb
  | clearGossip => exact hB.clear hb
  | restoreGossip record =>
    obtain ⟨board, heq, hboard⟩ := serve_restoreGossip w record
    rw [heq]
    rcases hboard with rfl | ⟨b, b', hsome, hrestore, rfl⟩
    · exact hb
    · exact hB.restore (hsome ▸ hb) hrestore

/-! ### One agent -/

theorem Holds.act_retains (h : w.Holds id a states) (hf : Agent.IsLocal f)
    (hr : Agent.Retains P f a w.pools states) : ∃ b next, (w.act id f).2.Holds id b next ∧ P b next := by
  obtain ⟨out, b, next, hact, hlen, hb⟩ := hr
  obtain ⟨_, _, _, hkeep, -, hact', -⟩ := hf a w.pools w.pools states h.sees h.sees
  have hhandles : b.handles = a.handles := by
    rw [(Prod.mk.inj (Prod.mk.inj (hact.symm.trans hact')).2).1]
    exact hkeep.handles
  exact ⟨b, next, (h.act hact hlen hhandles).2, hb⟩

/-- An operation on some agent, be it this one or another. -/
theorem Holds.act_lasting (h : w.Holds id a states) (hw : w.Owned c) (ha : P a states)
    (hf : Agent.IsLocal f) {id' : Uuid} (hr : Agent.Retains P f a w.pools states) :
    ∃ b next, (w.act id' f).2.Holds id b next ∧ P b next := by
  by_cases hid : id' = id
  · subst hid
    exact h.act_retains hf hr
  · exact ⟨a, states, h.act_other hw hf hid, ha⟩

theorem Holds.tick_lasting (hP : Agent.Lasting c B P) (hw : w.Owned c) (hb : B w.board)
    (h : w.Holds id a states) (ha : P a states) (id' : Uuid) (s : Senses) (e : Encounter) (dt : Float32)
    (taskId : Uuid) : ∃ b next, (w.tick id' s e dt taskId).2.Holds id b next ∧ P b next := by
  obtain ⟨board, heq, -⟩ := tick_eq_act w id' s e dt taskId
  rw [heq]
  refine h.act_lasting hw ha (Agent.isLocal_tickAct (w.surroundings taskId) s e dt) ?_
  exact hP.tick s e dt hw.config (congrArg (fun c : Config => c.numerics.guard) hw.config) hb ha h.sees

theorem Holds.tickAll_lasting (hP : Agent.Lasting c B P) (hB : Enduring B) (hw : w.Owned c) (hb : B w.board)
    (h : w.Holds id a states) (ha : P a states) (dt : Float32) (frames : List Frame) :
    ∃ b next, (w.tickAll dt frames).2.Holds id b next ∧ P b next := by
  induction frames generalizing w a states with
  | nil => exact ⟨a, states, h, ha⟩
  | cons f rest ih =>
    obtain ⟨b, next, hheld, hnext⟩ := h.tick_lasting hP hw hb ha f.id f.senses f.encounter dt f.taskId
    have hboard := hB.tick hb f.id f.senses f.encounter dt f.taskId
    have howned := (hw.tick f.id f.senses f.encounter dt f.taskId).2
    unfold Society.tickAll
    generalize w.tick f.id f.senses f.encounter dt f.taskId = r at hheld hboard howned ⊢
    obtain ⟨_ | _, w₁⟩ := r
    · exact ⟨b, next, hheld, hnext⟩
    · exact ih howned hboard hheld hnext

/-- **An agent keeps what lasts** until it is removed. -/
theorem Holds.serve_lasting (hP : Agent.Lasting c B P) (hB : Enduring B) (hw : w.Owned c) (hb : B w.board)
    (h : w.Holds id a states) (ha : P a states) {r : Request} (hr : r.removes id = false) :
    ∃ b next, (w.serve r).2.Holds id b next ∧ P b next := by
  cases r with
  | spawn p => exact ⟨a, states, h.spawnWith hw p _, ha⟩
  | spawnWith p binding => exact ⟨a, states, h.spawnWith hw p binding, ha⟩
  | despawn id' => exact ⟨a, states, h.despawn hw (by simpa [Request.removes] using hr), ha⟩
  | tick id' s e dt taskId => exact h.tick_lasting hP hw hb ha id' s e dt taskId
  | update frames dt =>
    simp only [Society.serve]
    rcases w.update_cases frames dt with ⟨-, heq⟩ | ⟨f, -, -, heq⟩ <;> rw [heq]
    · exact h.tickAll_lasting hP hB hw hb ha dt frames
    · exact ⟨a, states, h, ha⟩
  | reset id' =>
    simp only [Society.serve, answer, reset_eq_act]
    exact h.act_lasting hw ha Agent.isLocal_resetAct (hP.retains_reset ha h.sees)
  | reinforce id' reward =>
    simp only [Society.serve, answer, reinforce_eq_act, hw.config]
    exact h.act_lasting hw ha (Agent.isLocal_reinforceAct c reward) (hP.retains_reinforce ha h.sees reward)
  | shiftRelationship id' change =>
    simp only [Society.serve, answer, shiftRelationship_eq_act]
    exact h.act_lasting hw ha (Agent.isLocal_shiftAct change) (hP.retains_shift ha h.sees change)
  | save id' => exact ⟨a, states, h, ha⟩
  | load s => exact ⟨a, states, h.load hw s, ha⟩
  | clearGossip => exact ⟨a, states, h, ha⟩
  | restoreGossip record =>
    obtain ⟨board, heq, -⟩ := serve_restoreGossip w record
    rw [heq]
    exact ⟨a, states, h, ha⟩

theorem Holds.serveAll_lasting (hP : Agent.Lasting c B P) (hB : Enduring B) (hw : w.Owned c) (hb : B w.board)
    (h : w.Holds id a states) (ha : P a states) {requests : List Request}
    (hr : ∀ r ∈ requests, r.removes id = false) :
    ∃ b next, (w.serveAll requests).Holds id b next ∧ P b next := by
  induction requests generalizing w a states with
  | nil => exact ⟨a, states, h, ha⟩
  | cons r rest ih =>
    obtain ⟨b, next, hheld, hnext⟩ := h.serve_lasting hP hB hw hb ha (hr r List.mem_cons_self)
    exact ih (hw.serve r).2 (hB.serve hb r) hheld hnext fun q hq => hr q (List.mem_cons_of_mem r hq)

/-! ### All agents -/

theorem tickAll_index (w : Society) (dt : Float32) (frames : List Frame) :
    (w.tickAll dt frames).2.index = w.index := by
  induction frames generalizing w with
  | nil => rfl
  | cons f rest ih =>
    have htick := w.tick_index f.id f.senses f.encounter dt f.taskId
    unfold Society.tickAll
    generalize w.tick f.id f.senses f.encounter dt f.taskId = r at htick ⊢
    obtain ⟨_ | _, w₁⟩ := r
    · exact htick
    · exact (ih w₁).trans htick

theorem contains_of_index {w' : Society} (h : w'.index = w.index) (hid : w'.contains id = true) :
    w.contains id = true := by
  rwa [contains, h] at hid

/-- Whoever is there after a request that adds nobody was there before it, and was not removed. -/
theorem Owned.contains_before (hw : w.Owned c) {r : Request} (hr : r.adds = false)
    (hid : (w.serve r).2.contains id = true) : w.contains id = true ∧ r.removes id = false := by
  cases r with
  | spawn | spawnWith | load => cases hr
  | despawn id' =>
    simp only [Society.serve, answer] at hid
    rcases handle_cases w id' with ⟨hnone, hh⟩ | ⟨k, hk, -⟩
    · simp only [Society.despawn, hh] at hid
      refine ⟨hid, ?_⟩
      have hne : id' ≠ id := by
        rintro rfl
        rw [contains, hnone] at hid
        cases hid
      simpa [Request.removes] using hne
    · obtain ⟨b, agents, -, -, -, heq⟩ := hw.despawn_eq hk
      rw [heq, contains, Owned.lookup_filter] at hid
      split at hid
      · cases hid
      · next hne => exact ⟨hid, by simpa [Request.removes] using Ne.symm hne⟩
  | tick id' s e dt taskId => exact ⟨contains_of_index (w.tick_index id' s e dt taskId) hid, rfl⟩
  | update frames dt =>
    simp only [Society.serve] at hid
    rcases w.update_cases frames dt with ⟨-, heq⟩ | ⟨f, -, -, heq⟩ <;> rw [heq] at hid
    · exact ⟨contains_of_index (w.tickAll_index dt frames) hid, rfl⟩
    · exact ⟨hid, rfl⟩
  | reset id' =>
    simp only [Society.serve, answer, reset_eq_act] at hid
    exact ⟨contains_of_index act_index hid, rfl⟩
  | reinforce id' reward =>
    simp only [Society.serve, answer, reinforce_eq_act] at hid
    exact ⟨contains_of_index act_index hid, rfl⟩
  | shiftRelationship id' change =>
    simp only [Society.serve, answer, shiftRelationship_eq_act] at hid
    exact ⟨contains_of_index act_index hid, rfl⟩
  | save id' => exact ⟨hid, rfl⟩
  | clearGossip => exact ⟨hid, rfl⟩
  | restoreGossip record =>
    obtain ⟨board, heq, -⟩ := serve_restoreGossip w record
    rw [heq] at hid
    exact ⟨hid, rfl⟩

/-- Every agent has the property, and the board has its own. -/
structure Each (c : Config) (B : Option Board → Prop) (P : Agent → List CellState → Prop) (w : Society) :
    Prop where
  owned : w.Owned c
  board : B w.board
  holds : ∀ id a states, w.Holds id a states → P a states

theorem Each.serve_stay (hw : Each c B P w) (hP : Agent.Lasting c B P) (hB : Enduring B) {r : Request}
    (hr : r.adds = false) : Each c B P (w.serve r).2 := by
  refine ⟨(hw.owned.serve r).2, hB.serve hw.board r, fun id a states h => ?_⟩
  obtain ⟨hid, hstays⟩ := hw.owned.contains_before hr h.contains
  obtain ⟨a₀, states₀, h₀⟩ := hw.owned.holds hid
  obtain ⟨b, next, hb, hPb⟩ :=
    h₀.serve_lasting hP hB hw.owned hw.board (hw.holds id a₀ states₀ h₀) hstays
  obtain ⟨rfl, rfl⟩ := hb.unique h
  exact hPb

theorem Each.spawnWith (hw : Each c B P w) {p : Profile} {binding : Binding}
    (hnew : ∀ handles left a,
      Agent.assemble p binding (Agent.initialController binding w.controller) handles left c = .ok a →
      P a (Agent.initialStates binding w.controller)) : Each c B P (w.spawnWith p binding).2 := by
  refine ⟨hw.owned.spawnWith p binding, (w.spawnWith_board p binding).symm ▸ hw.board, fun id a states h => ?_⟩
  rcases hw.owned.newcomer h with h₀ | ⟨-, rfl, handles, left, hass⟩
  · exact hw.holds id a states h₀
  · exact hnew handles left a hass

/-- Only what the loaded snapshot makes of a new agent has to be looked at. -/
theorem Each.load (hw : Each c B P w) {s : Snapshot}
    (hnew : ∀ handles left a, Agent.assemble s.profile s.binding
      (Agent.initialController s.binding w.controller) handles left c = .ok a →
      P a (Agent.initialStates s.binding w.controller) ∧
      ∀ b p next, Sees p.layers a.handles (Agent.initialStates s.binding w.controller) →
        a.restore s p = (.ok (), b, p.put a.handles next) →
        next.length = (Agent.initialStates s.binding w.controller).length → P b next) :
    Each c B P (w.load s).2 := by
  have howned : (w.load s).2.Owned c := (hw.owned.serve (.load s)).2
  refine ⟨howned, (w.load_board s).symm ▸ hw.board, fun id a states h => ?_⟩
  cases hload : (w.load s).1 with
  | error e => exact hw.holds id a states ((hw.owned.load_unchanged hload).holds.mp h)
  | ok id' =>
    obtain ⟨hspawn, hrestore, heq⟩ := of_load hload
    have hspawned : Each c B P (w.spawnWith s.profile s.binding).2 :=
      hw.spawnWith fun handles left a hass => (hnew handles left a hass).1
    rw [heq] at h
    rw [restore_eq_act] at h hrestore
    have hf := Agent.isLocal_restore s
    by_cases hid : id = s.profile.id
    · subst hid
      obtain ⟨a₀, handles, left, h₀, hass⟩ := hw.owned.holds_spawned hspawn
      obtain ⟨out, b, next, hkeep, hlen, hact, -⟩ := hf a₀ _ _ _ h₀.sees h₀.sees
      have hdone := h₀.act (f := fun a p => a.restore s p) hact hlen hkeep.handles
      obtain ⟨rfl, rfl⟩ := hdone.2.unique h
      rw [hdone.1] at hrestore
      subst hrestore
      exact (hnew handles left a₀ hass).2 b _ next h₀.sees hact hlen
    · obtain ⟨a₀, states₀, h₀⟩ := hspawned.owned.holds (contains_of_index act_index h.contains)
      have hother := h₀.act_other hspawned.owned hf (Ne.symm hid)
      obtain ⟨rfl, rfl⟩ := hother.unique h
      exact hspawned.holds id a₀ states₀ h₀

theorem Each.serve (hw : Each c B P w) (hP : Agent.Lasting c B P) (hB : Enduring B)
    (hnew : Agent.Inborn c w.controller P) (r : Request) : Each c B P (w.serve r).2 := by
  cases r with
  | spawn p => exact hw.spawnWith fun _ _ _ hass => hnew.spawned hass
  | spawnWith p binding => exact hw.spawnWith fun _ _ _ hass => hnew.spawned hass
  | load s =>
    refine hw.load fun _ _ a hass => ⟨hnew.spawned hass, fun b p next hsees hrestore hlen => ?_⟩
    exact hnew.resumed (hnew.spawned hass) hsees hrestore hlen
  | _ => exact hw.serve_stay hP hB rfl

theorem each_ofConfig {detected : Backend} (hw : ofConfig c detected = .ok w)
    (hB : ∀ board, boardOf c = .ok board → B board) : Each c B P w := by
  obtain ⟨controller, board, -, -, hboard, rfl⟩ := ofConfig_cases hw
  refine ⟨owned_ofConfig hw, hB board hboard, fun id a states h => ?_⟩
  have := h.contains
  cases this

end Society

/-- **What new agents have and what lasts, every agent has**, whatever was loaded. -/
theorem Reachable.each {c : Config} {w : Society} (hw : Reachable c w) {B : Option Board → Prop}
    {P : Agent → List CellState → Prop} (hP : Agent.Lasting c B P) (hB : Society.Enduring B)
    (hnew : Agent.Inborn c w.controller P) (hstart : ∀ board, Society.boardOf c = .ok board → B board) :
    Society.Each c B P w := by
  induction hw with
  | start _ h => exact Society.each_ofConfig h hstart
  | @next w r hw ih =>
    rw [hw.owned.controller_eq (hw.owned.serve r).2] at hnew
    exact (ih hnew).serve hP hB hnew r

end NpcMind
