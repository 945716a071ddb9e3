import NpcMind.Proofs.Twins

/-!
# A reset starts all over

A reset leaves to an agent what it learned and consolidated, but of what its decisions depend on nothing
except its profile and its parameters. Two agents that have these in common, in whatever societies of one
configuration and after whatever history, make the same decisions once both were reset. An agent that was
never rewarded or punished has the parameters that it was spawned with, and decides like a new one.
-/

namespace NpcMind

open StatePools Outcome

/-! ### Rounds -/

/-- A tick of an agent, and what else is asked of its society before it. -/
structure Round where
  meanwhile : List Request
  senses : Senses
  encounter : Encounter
  dt : Float32
  /-- The identity of a task, if the agent stores one. -/
  taskId : Uuid

/-- What the agent meets in a round. -/
def Round.input (r : Round) : Senses × Encounter × Float32 := (r.senses, r.encounter, r.dt)

/-- Nothing that is asked in the meantime concerns the agent. -/
def Round.Spares (id : Uuid) (r : Round) : Prop := ∀ q ∈ r.meanwhile, q.spares id = true

namespace Society

variable {c : Config} {w w' : Society} {id : Uuid} {learning : Prop}

/-- The society after one request after the other. -/
def serveAll (w : Society) (requests : List Request) : Society :=
  requests.foldl (fun w r => (w.serve r).2) w

/-- What an agent decides round by round, each time with what was on the board before its tick. -/
def play (id : Uuid) (w : Society) : List Round → List (Option Memory × Outcome Decision)
  | [] => []
  | r :: rest =>
    let w := w.serveAll r.meanwhile
    (w.board.map Board.memory, (w.tick id r.senses r.encounter r.dt r.taskId).1) ::
      play id (w.tick id r.senses r.encounter r.dt r.taskId).2 rest

/-- The agents of that identity decide alike whatever they meet, if there is no board or both boards hold the
same before each tick. What else is asked of their societies may differ, and so may the identities of tasks. -/
def DecideAlike (c : Config) (id : Uuid) (w w' : Society) : Prop :=
  ∀ rounds rounds' : List Round, rounds.map Round.input = rounds'.map Round.input →
    (∀ r ∈ rounds, r.Spares id) → (∀ r ∈ rounds', r.Spares id) →
    (c.limits.gossipSlots = 0 ∨
      (w.play id rounds).map Prod.fst = (w'.play id rounds').map Prod.fst) →
    (w.play id rounds).map Prod.snd = (w'.play id rounds').map Prod.snd

theorem Owned.serveAll (hw : w.Owned c) (requests : List Request) : (w.serveAll requests).Owned c := by
  induction requests generalizing w with
  | nil => exact hw
  | cons r rest ih => exact ih (hw.serve r).2

theorem serveAll_backend (w : Society) (requests : List Request) : (w.serveAll requests).backend = w.backend := by
  induction requests generalizing w with
  | nil => rfl
  | cons r rest ih => exact (ih (w.serve r).2).trans (w.serve_backend r)

theorem Holds.serveAll {a : Agent} {states : List CellState} (h : w.Holds id a states) (hw : w.Owned c)
    {requests : List Request} (hr : ∀ q ∈ requests, q.spares id = true) :
    (w.serveAll requests).Holds id a states := by
  induction requests generalizing w with
  | nil => exact h
  | cons r rest ih =>
    exact ih (h.serve hw (hr r List.mem_cons_self)) (hw.serve r).2
      fun q hq => hr q (List.mem_cons_of_mem r hq)

theorem Twins.serveAll (h : Twins learning id w w') (hw : w.Owned c) (hw' : w'.Owned c)
    {requests requests' : List Request} (hr : ∀ q ∈ requests, q.spares id = true)
    (hr' : ∀ q ∈ requests', q.spares id = true) :
    Twins learning id (w.serveAll requests) (w'.serveAll requests') := by
  obtain ⟨a, b, states, states', ha, hb, hrest⟩ := h
  exact ⟨a, b, states, states', ha.serveAll hw hr, hb.serveAll hw' hr', hrest⟩

/-- Twins play alike, as long as their boards do not tell them different things. -/
theorem Twins.play (h : Twins learning id w w') (hw : w.Owned c) (hw' : w'.Owned c) (hm : w.backend = w'.backend)
    {rounds rounds' : List Round} (hinput : rounds.map Round.input = rounds'.map Round.input)
    (hr : ∀ r ∈ rounds, r.Spares id) (hr' : ∀ r ∈ rounds', r.Spares id)
    (hboards : (w.play id rounds).map Prod.fst = (w'.play id rounds').map Prod.fst) :
    (w.play id rounds).map Prod.snd = (w'.play id rounds').map Prod.snd := by
  induction rounds generalizing rounds' w w' with
  | nil =>
    obtain rfl := List.map_eq_nil_iff.mp hinput.symm
    rfl
  | cons r rest ih =>
    obtain ⟨r', rest', rfl, hfirst, hinput⟩ := List.map_eq_cons_iff.mp hinput.symm
    obtain ⟨hsenses, hencounter, hdt⟩ : r'.senses = r.senses ∧ r'.encounter = r.encounter ∧ r'.dt = r.dt := by
      simpa [Round.input] using hfirst
    simp only [Society.play, List.map_cons, List.cons.injEq, hsenses, hencounter, hdt] at hboards ⊢
    have hmet := h.serveAll hw hw' (hr r List.mem_cons_self) (hr' r' List.mem_cons_self)
    have howned := hw.serveAll r.meanwhile
    have howned' := hw'.serveAll r'.meanwhile
    have hmachine : (w.serveAll r.meanwhile).backend = (w'.serveAll r'.meanwhile).backend := by
      rw [serveAll_backend, serveAll_backend, hm]
    obtain ⟨hsame, htwins, -⟩ := hmet.tick (howned.config.trans howned'.config.symm) hmachine hboards.1 r.senses
      r.encounter r.dt r.taskId r'.taskId
    refine ⟨hsame, ih htwins (howned.tick id r.senses r.encounter r.dt r.taskId).2
      (howned'.tick id r.senses r.encounter r.dt r'.taskId).2 ?_ hinput.symm
      (fun q hq => hr q (List.mem_cons_of_mem r hq)) (fun q hq => hr' q (List.mem_cons_of_mem r' hq)) hboards.2⟩
    rw [tick_backend, tick_backend, hmachine]

end Society

theorem Reachable.serveAll {c : Config} {w : Society} (hw : Reachable c w) (requests : List Request) :
    Reachable c (w.serveAll requests) := by
  induction requests generalizing w with
  | nil => exact hw
  | cons r rest ih => exact ih (.next r hw)

/-- Without a board there is never anything on it. -/
theorem Reachable.play_boardless {c : Config} {w : Society} (hw : Reachable c w)
    (hc : c.limits.gossipSlots = 0) (id : Uuid) (rounds : List Round) :
    (w.play id rounds).map Prod.fst = List.replicate rounds.length none := by
  induction rounds generalizing w with
  | nil => rfl
  | cons r rest ih =>
    have hmet := hw.serveAll r.meanwhile
    have hticked : Reachable c ((w.serveAll r.meanwhile).tick id r.senses r.encounter r.dt r.taskId).2 :=
      .next (.tick id r.senses r.encounter r.dt r.taskId) hmet
    simp only [Society.play, List.map_cons, hmet.boardless hc, ih hticked, Option.map_none, List.length_cons,
      List.replicate_succ]

theorem Society.Twins.decideAlike {c : Config} {w w' : Society} {id : Uuid} {learning : Prop}
    (h : Twins learning id w w') (hw : Reachable c w) (hw' : Reachable c w') (hm : w.backend = w'.backend) :
    DecideAlike c id w w' := by
  intro rounds rounds' hinput hr hr' hboards
  refine h.play hw.owned hw'.owned hm hinput hr hr' ?_
  rcases hboards with hc | hsame
  · have hlen : rounds.length = rounds'.length := by
      simpa using congrArg List.length hinput
    rw [hw.play_boardless hc, hw'.play_boardless hc, hlen]
  · exact hsame

/-! ### Agents that never adapted -/

/-- The request rewards or punishes the agent of that identity. -/
def Request.reinforces (id : Uuid) : Request → Bool
  | .reinforce id' _ => id' == id
  | _ => false

/-- A society whose agent of that identity never adapted its parameters: from its spawn on, through all that
came after and however often it was saved and loaded, every reward for it was refused. -/
inductive Unadapted (c : Config) (id : Uuid) : Society → Prop
  | spawn {w : Society} {p : Profile} {binding : Binding} : Genuine c w →
      (w.spawnWith p binding).1 = .ok id → Unadapted c id (w.spawnWith p binding).2
  | next {w : Society} (r : Request) : r.bringsRecord = false →
      (r.reinforces id = true → ∃ e, (w.serve r).1 = .error e) →
      Unadapted c id w → (w.serve r).2.contains id = true → Unadapted c id (w.serve r).2
  | load {w w' : Society} {s : Snapshot} : Genuine c w → Unadapted c id w' → w'.save id = .ok s →
      (w.load s).1 = .ok id → Unadapted c id (w.load s).2
  | loadOther {c' : Config} {w w' : Society} {id' : Uuid} {s : Snapshot} : Unadapted c id w → Genuine c' w' →
      w'.save id' = .ok s → Unadapted c id (w.load s).2
  | restoreGossip {c' : Config} {w w' : Society} {r : MemoryRecord} : Unadapted c id w → Genuine c' w' →
      w'.gossipRecord = .ok (some r) → Unadapted c id (w.serve (.restoreGossip r)).2

theorem Unadapted.genuine {c : Config} {id : Uuid} {w : Society} (h : Unadapted c id w) : Genuine c w := by
  induction h with
  | spawn hw _ => exact .next (.spawnWith _ _) rfl hw
  | next r hr _ _ _ ih => exact .next r hr ih
  | load hw _ hs _ ih => exact .load hw ih hs
  | loadOther _ hw' hs ih => exact .load ih hw' hs
  | restoreGossip _ hw' hr ih => exact .restoreGossip ih hw' hr

namespace Society

variable {c : Config} {w w' : Society} {id : Uuid} {β : Type}
  {f : Agent → StatePools → Outcome β × Agent × StatePools}

/-- The agent of that identity has the parameters that one is spawned with. -/
def Initial (w : Society) (id : Uuid) : Prop :=
  ∃ a states, w.Holds id a states ∧ a.controller = Agent.initialController a.binding w.controller

theorem Initial.serve_other (h : w.Initial id) (hw : w.Owned c) {r : Request} (hr : r.spares id = true) :
    (w.serve r).2.Initial id := by
  obtain ⟨a, states, ha, hc⟩ := h
  refine ⟨a, states, ha.serve hw hr, ?_⟩
  rw [hw.controller_eq (hw.serve r).2, hc]

theorem Initial.act (h : w.Initial id) (hw : w.Owned c) (hf : Agent.IsLocal f)
    (hkeep : ∀ a, a.controller = Agent.initialController a.binding w.controller →
      (f a w.pools).2.1.binding = a.binding ∧ (f a w.pools).2.1.controller = a.controller) (id' : Uuid) :
    (w.act id' f).2.Initial id := by
  obtain ⟨a, states, ha, hc⟩ := h
  have hcontroller := hw.controller_eq (hw.act hf id')
  by_cases hid : id' = id
  · subst hid
    obtain ⟨out, b, next, hb, hlen, hact, -⟩ := hf a w.pools w.pools states ha.sees ha.sees
    have hparameters := hkeep a hc
    rw [hact] at hparameters
    refine ⟨b, next, (ha.act hact hlen hb.handles).2, ?_⟩
    rw [hparameters.1, hparameters.2, hcontroller, hc]
  · exact ⟨a, states, ha.act_other hw hf hid, by rw [hcontroller, hc]⟩

theorem Initial.tick (h : w.Initial id) (hw : w.Owned c) (id' : Uuid) (s : Senses) (e : Encounter)
    (dt : Float32) (taskId : Uuid) : (w.tick id' s e dt taskId).2.Initial id := by
  obtain ⟨board, heq, -⟩ := tick_eq_act w id' s e dt taskId
  rw [heq]
  refine h.act hw (Agent.isLocal_tickAct (w.surroundings taskId) s e dt) (fun a _ => ?_) id'
  unfold Agent.tickAct
  cases ht : a.tick (w.surroundings taskId) w.pools s e dt with
  | error err => exact ⟨rfl, rfl⟩
  | ok r =>
    obtain ⟨hbinding, hcontroller⟩ := Agent.tick_parameters ht
    exact ⟨hbinding, hcontroller⟩

theorem Initial.tickAll (h : w.Initial id) (hw : w.Owned c) (dt : Float32) (frames : List Frame) :
    (w.tickAll dt frames).2.Initial id := by
  induction frames generalizing w with
  | nil => exact h
  | cons f rest ih =>
    have htick := h.tick hw f.id f.senses f.encounter dt f.taskId
    have howned := (hw.tick f.id f.senses f.encounter dt f.taskId).2
    unfold Society.tickAll
    generalize w.tick f.id f.senses f.encounter dt f.taskId = r at htick howned ⊢
    obtain ⟨_ | _, w₁⟩ := r
    · exact htick
    · exact ih htick howned

theorem Initial.despawn (h : w.Initial id) (hw : w.Owned c) {id' : Uuid}
    (hstays : (w.despawn id').2.contains id = true) : (w.despawn id').2.Initial id := by
  have hne : id' ≠ id := by
    rintro rfl
    obtain ⟨a, states, ⟨k, hk, -⟩, -⟩ := h
    obtain ⟨b, agents, -, -, -, heq⟩ := hw.despawn_eq hk
    rw [heq, contains, Owned.lookup_filter, if_pos rfl] at hstays
    cases hstays
  exact h.serve_other (r := .despawn id') hw (by simpa [Request.spares] using hne)

/-- Whatever is not a reward, and a reward that is refused, leaves the parameters of an agent as they are. -/
theorem Initial.serve (h : w.Initial id) (hw : w.Owned c) {r : Request}
    (hr : r.reinforces id = true → ∃ e, (w.serve r).1 = .error e)
    (hstays : (w.serve r).2.contains id = true) : (w.serve r).2.Initial id := by
  cases r with
  | despawn id' => exact h.despawn hw hstays
  | tick id' s e dt taskId => exact h.tick hw id' s e dt taskId
  | update frames dt =>
    simp only [Society.serve, answer]
    rcases w.update_cases frames dt with ⟨-, heq⟩ | ⟨f, -, -, heq⟩ <;> rw [heq]
    · exact h.tickAll hw dt frames
    · exact h
  | reset id' =>
    simp only [Society.serve, answer, reset_eq_act]
    refine h.act hw Agent.isLocal_resetAct (fun a _ => ?_) id'
    unfold Agent.resetAct Agent.reset
    generalize w.pools.reset a.handles = r
    obtain ⟨_ | _, q⟩ := r <;> exact ⟨rfl, rfl⟩
  | reinforce id' reward =>
    by_cases hid : id' = id
    · obtain ⟨e, he⟩ := hr (beq_iff_eq.mpr hid)
      simp only [Society.serve, answer, Society.reinforce] at he ⊢
      split
      · exact h
      · split
        · exact h
        · next hl _ _ _ hok =>
          simp only [hl, hok] at he
          cases he
    · exact h.serve_other hw (by simpa [Request.spares] using hid)
  | shiftRelationship id' change =>
    simp only [Society.serve, answer, shiftRelationship_eq_act]
    exact h.act hw (Agent.isLocal_shiftAct change) (fun a _ => ⟨rfl, rfl⟩) id'
  | spawn | spawnWith | save | load | clearGossip | restoreGossip => exact h.serve_other hw rfl

theorem initial_spawned (hw : w.Owned c) {p : Profile} {binding : Binding}
    (h : (w.spawnWith p binding).1 = .ok id) : (w.spawnWith p binding).2.Initial id := by
  obtain ⟨a, handles, left, ha, hass⟩ := hw.holds_spawned h
  rw [(spawnWith_ok h).1]
  refine ⟨a, _, ha, ?_⟩
  rw [hw.controller_eq (hw.spawnWith p binding)]
  obtain ⟨_, _, _, -, -, rfl⟩ := Agent.assemble_cases hass
  rfl

/-- What is saved of an agent with initial parameters are these or none. -/
theorem Initial.save (h : w.Initial id) {s : Snapshot} (hs : w.save id = .ok s) :
    s.parameters = none ∨ s.parameters = some w.controller.flatten := by
  obtain ⟨a, states, ha, hc⟩ := h
  obtain ⟨memory, -, rfl⟩ := ha.of_save hs
  simp only [Agent.picture, hc, Agent.initialController]
  split
  · next hb => exact .inr (by rw [hb]; rfl)
  · exact .inl rfl

theorem initial_loaded (hw : w.Owned c) {s : Snapshot}
    (hs : s.parameters = none ∨ s.parameters = some w.controller.flatten) (h : (w.load s).1 = .ok id) :
    (w.load s).2.Initial id := by
  obtain ⟨hok, -, heq⟩ := of_load h
  rw [heq] at h ⊢
  cases h
  have howned := hw.spawnWith s.profile s.binding
  have hcontroller := hw.controller_eq howned
  rw [restore_eq_act]
  refine (initial_spawned hw hok).act howned (Agent.isLocal_restore s) (fun a hc => ?_) _
  refine Agent.restore_parameters howned.shape hc ?_
  rw [hcontroller]
  exact hs

end Society

/-- **An agent that never adapted has its initial parameters.** -/
theorem Unadapted.initial {c : Config} {id : Uuid} {w : Society} (h : Unadapted c id w) : w.Initial id := by
  induction h with
  | spawn hw hok => exact Society.initial_spawned hw.sound.owned hok
  | next r _ hr hw hstays ih => exact ih.serve hw.genuine.sound.owned hr hstays
  | load hw hw' hs hok ih =>
    refine Society.initial_loaded hw.sound.owned ?_ hok
    rw [hw'.genuine.sound.owned.controller_eq hw.sound.owned]
    exact ih.save hs
  | @loadOther _ w _ _ s hw _ _ ih => exact ih.serve_other (r := .load s) hw.genuine.sound.owned rfl
  | restoreGossip hw _ _ ih => exact ih.serve_other hw.genuine.sound.owned rfl

/-! ### Replays -/

namespace Agent

/-- There is nothing about a new agent that a reset changes. -/
theorem renewed_of_assemble {p : Profile} {binding : Binding} {controller : Option Stack}
    {handles : List Handle} {left : Budget} {c : Config} {a : Agent}
    (h : assemble p binding controller handles left c = .ok a) : a.renewed = a := by
  obtain ⟨budget, memory, consolidator, hmemory, -, rfl⟩ := assemble_cases h
  have hclear : memory.clear = memory := by
    rw [Memory.eq_empty_of_ofConfig hmemory]
    exact (Memory.fits_empty c.memory).clear
  have hcontext :
      Vec.zeros (Vec.zeros (vectorSize c.memory.width)).size = Vec.zeros (vectorSize c.memory.width) :=
    congrArg Vec.zeros Array.size_replicate
  have hsums := (Accumulator.fits_ofCount ((controller.map Stack.parameterCount).getD 0)).reset
  simp only [renewed, hclear, hcontext, hsums]
  rfl

theorem reset_initialStates (binding : Binding) (shared : Stack) :
    (initialStates binding shared).map CellState.reset = initialStates binding shared := by
  unfold initialStates
  split
  · rfl
  · rw [List.map_map]
    refine List.map_congr_left fun c _ => ?_
    simp only [Function.comp_apply, CellState.reset, CellState.initial, Vec.zeros, Array.size_replicate]

end Agent

namespace Society

variable {c : Config} {w w' : Society} {id : Uuid} {a b : Agent} {states states' : List CellState}

/-- Agents of one profile and with the same parameters are twins once both were reset. -/
theorem Sound.twins_reset (hw : w.Sound c) (hw' : w'.Sound c) (ha : w.Holds id a states)
    (hb : w'.Holds id b states') (hp : b.profile = a.profile) (hc : b.controller = a.controller) :
    Twins False id (w.reset id).2 (w'.reset id).2 := by
  have hwhole := hw.whole id a states ha
  have hwhole' := hw'.whole id b states' hb
  rw [hw.owned.controller_eq hw'.owned] at hwhole'
  have hfit := hwhole'.states
  rw [hc] at hfit
  exact ⟨_, _, _, _, ha.reset.2, hb.reset.2, hwhole.sound.alike_renewed hwhole'.sound hp.symm hc.symm,
    False.elim, Agent.carries_reset hwhole.states hfit⟩

/-- A new agent is as good as one that was reset. -/
theorem Twins.spawned {learning : Prop} {p : Profile} {binding : Binding} (hw' : w'.Owned c)
    (hid : (w'.spawnWith p binding).1 = .ok id)
    (h : Twins learning id w ((w'.spawnWith p binding).2.reset id).2) :
    Twins learning id w (w'.spawnWith p binding).2 := by
  obtain ⟨b, handles, left, hb, hass⟩ := hw'.holds_spawned hid
  rw [← (spawnWith_ok hid).1] at hb
  obtain ⟨a, b', states, states', ha, hb', hrest⟩ := h
  have hreset := hb.reset.2
  rw [Agent.renewed_of_assemble hass, Agent.reset_initialStates] at hreset
  obtain ⟨rfl, rfl⟩ := hreset.unique hb'
  exact ⟨a, b, states, _, ha, hb, hrest⟩

/-- The numbers in an agent's controller determine the controller. -/
theorem Sound.controller_eq_of_flatten (hw : w.Sound c) (hw' : w'.Sound c) (ha : w.Holds id a states)
    (hb : w'.Holds id b states')
    (h : b.controller.map Stack.flatten = a.controller.map Stack.flatten) : b.controller = a.controller := by
  have hbound := (hw.whole id a states ha).sound.bound
  have hbound' := (hw'.whole id b states' hb).sound.bound
  rw [hw.owned.controller_eq hw'.owned] at hbound'
  cases hca : a.controller with
  | none =>
    rw [hca] at h
    exact Option.map_eq_none_iff.mp h
  | some stack =>
    rw [hca] at h
    obtain ⟨stack', hcb, hflat⟩ := Option.map_eq_some_iff.mp h
    rw [hcb, (hbound'.fits hcb).2.eq_of_flatten (hbound.fits hca).2 hflat]

end Society

/-- **A reset starts all over.** For the agent `a` of a genuine society `w`, `w.reset id` succeeds. If another genuine
society `w'` of configuration `c` and the same backend has an agent `b` under `id` with the profile of `a` and the
same parameters, then `w'.reset id` succeeds too, and the two societies are `DecideAlike` afterwards, whatever either
went through before. If `a` is `Unadapted`, `w.reset id` is `DecideAlike` to a society that has just spawned
`a.profile`. -/
theorem Genuine.replays {c : Config} {w : Society} {id : Uuid} {a : Agent} (hw : Genuine c w)
    (ha : w.agent id = .ok a) :
    (w.reset id).1 = .ok () ∧
    (∀ w' b, Genuine c w' → w'.backend = w.backend → w'.agent id = .ok b → b.profile = a.profile →
      b.controller.map Stack.flatten = a.controller.map Stack.flatten →
      (w'.reset id).1 = .ok () ∧ Society.DecideAlike c id (w.reset id).2 (w'.reset id).2) ∧
    (Unadapted c id w → ∀ w', Genuine c w' → w'.backend = w.backend →
      (w'.spawnWith a.profile a.binding).1 = .ok id →
      Society.DecideAlike c id (w.reset id).2 (w'.spawnWith a.profile a.binding).2) := by
  have hsound := hw.sound
  have hreset : Reachable c (w.reset id).2 := .next (.reset id) hw.reachable
  obtain ⟨states, hheld⟩ := hsound.owned.holds_agent ha
  have hmachine : (w.reset id).2.backend = w.backend := w.serve_backend (.reset id)
  refine ⟨hheld.reset.1, fun w' b hw' hm hb hp hflat => ?_, fun hun w' hw' hm hid => ?_⟩
  · obtain ⟨states', hheld'⟩ := hw'.sound.owned.holds_agent hb
    have hc := hsound.controller_eq_of_flatten hw'.sound hheld hheld' hflat
    have htwins := hsound.twins_reset hw'.sound hheld hheld' hp hc
    have hmachine' : (w'.reset id).2.backend = w'.backend := w'.serve_backend (.reset id)
    refine ⟨hheld'.reset.1, htwins.decideAlike hreset (.next (.reset id) hw'.reachable) ?_⟩
    rw [hmachine, hmachine', hm]
  · have hspawned : Genuine c (w'.spawnWith a.profile a.binding).2 := .next (.spawnWith _ _) rfl hw'
    obtain ⟨a', states', ha', hc⟩ := hun.initial
    obtain ⟨rfl, rfl⟩ := ha'.unique hheld
    obtain ⟨b, handles, left, hb, hass⟩ := hw'.sound.owned.holds_spawned hid
    rw [← (Society.spawnWith_ok hid).1] at hb
    have hsame : b.profile = a'.profile ∧ b.controller = a'.controller := by
      rw [hc, ← hsound.owned.controller_eq hw'.sound.owned]
      obtain ⟨_, _, _, -, -, rfl⟩ := Agent.assemble_cases hass
      exact ⟨rfl, rfl⟩
    have htwins := hsound.twins_reset hspawned.sound ha' hb hsame.1 hsame.2
    refine (htwins.spawned hw'.sound.owned hid).decideAlike hreset hspawned.reachable ?_
    rw [hmachine, Society.spawnWith_backend, hm]

/-- A rogue of the default configuration that came to trust the player and is reset then: it decides like one
that was reset right away, and like a new one. -/
theorem replays_after_shift : ∃ w₀ w₁ w₂ level, Society.ofConfig {} .scalar = .ok w₀ ∧
    w₀.spawnWith ⟨⟨1, 2⟩, "Vex", .rogue, none⟩ .perAgent = (.ok ⟨1, 2⟩, w₁) ∧
    w₁.shiftRelationship ⟨1, 2⟩ 0.5 = (.ok level, w₂) ∧
    Society.DecideAlike {} ⟨1, 2⟩ (w₂.reset ⟨1, 2⟩).2 (w₁.reset ⟨1, 2⟩).2 ∧
    Society.DecideAlike {} ⟨1, 2⟩ (w₂.reset ⟨1, 2⟩).2 w₁ := by
  obtain ⟨w₀, w₁, w₂, level, a, b, h₀, h₁, h₂, ha, hb, hprofile, hbinding, hsame, hflat, hstays⟩ :
      ∃ w₀ w₁ w₂ level a b, Society.ofConfig {} .scalar = .ok w₀ ∧
      w₀.spawnWith ⟨⟨1, 2⟩, "Vex", .rogue, none⟩ .perAgent = (.ok ⟨1, 2⟩, w₁) ∧
      w₁.shiftRelationship ⟨1, 2⟩ 0.5 = (.ok level, w₂) ∧ w₂.agent ⟨1, 2⟩ = .ok a ∧ w₁.agent ⟨1, 2⟩ = .ok b ∧
      a.profile = ⟨⟨1, 2⟩, "Vex", .rogue, none⟩ ∧ a.binding = .perAgent ∧ b.profile = a.profile ∧
      b.controller.map Stack.flatten = a.controller.map Stack.flatten ∧ w₂.contains ⟨1, 2⟩ = true :=
    ⟨_, _, _, _, _, _, rfl, rfl, rfl, rfl, rfl, rfl, rfl, rfl, rfl, rfl⟩
  have hstart : Genuine {} w₀ := .start _ h₀
  have hspawned : Unadapted {} ⟨1, 2⟩ w₁ := by
    have hid := congrArg Prod.fst h₁
    have := Unadapted.spawn hstart hid
    rwa [h₁] at this
  have hserve : w₁.serve (.shiftRelationship ⟨1, 2⟩ 0.5) = (.ok (.level level), w₂) := by
    simp only [Society.serve, h₂]
    rfl
  have hshifted : Unadapted {} ⟨1, 2⟩ w₂ := by
    have := Unadapted.next (.shiftRelationship ⟨1, 2⟩ 0.5) rfl (fun h => absurd h (by decide)) hspawned
      (by rw [hserve]; exact hstays)
    rwa [hserve] at this
  obtain ⟨-, hreset, hnew⟩ := Genuine.replays hshifted.genuine ha
  have hmachine₁ : w₁.backend = w₀.backend := by
    have := w₀.spawnWith_backend ⟨⟨1, 2⟩, "Vex", .rogue, none⟩ .perAgent
    rwa [h₁] at this
  have hmachine₂ : w₂.backend = w₁.backend := by
    have := w₁.serve_backend (.shiftRelationship ⟨1, 2⟩ 0.5)
    rwa [hserve] at this
  have hdecide := hnew hshifted w₀ hstart (hmachine₂.trans hmachine₁).symm
  rw [hprofile, hbinding, h₁] at hdecide
  exact ⟨w₀, w₁, w₂, level, h₀, h₁, h₂, (hreset w₁ b hspawned.genuine hmachine₂.symm hb hsame hflat).2,
    hdecide rfl⟩

end NpcMind
