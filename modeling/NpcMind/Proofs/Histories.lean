import NpcMind.Proofs.Invariants

/-!
# What agents go through

An agent begins as a new one. After that it ticks, is reset, is rewarded and has its relationship shifted,
in any order; and now and then it is saved and resumed, perhaps in another society. `Agent.Lived` is that
course of events, seen from the agent alone. Every agent of a society in which nothing was loaded but what
societies saved has lived through some events, so whatever each of them keeps holds of every agent.
-/

namespace NpcMind

open StatePools Outcome

namespace Agent

/-- What happens to an agent. -/
inductive Event where
  | tick
  /-- A reset, which so many tasks survived. -/
  | reset (tasks : Nat)
  | reward
  | shift
  deriving DecidableEq

/-- The agent was spawned and has been through the events since then, the latest first. Saving and resuming
it is none of them. -/
inductive Lived : Config → List Event → Agent → Prop
  | spawned {c : Config} {profile : Profile} {binding : Binding} {shared : Stack} {handles : List Handle}
      {left : Budget} {a : Agent} :
      assemble profile binding (initialController binding shared) handles left c = .ok a → Lived c [] a
  | ticked {c : Config} {events : List Event} {a b : Agent} {env : Surroundings} {p q : StatePools}
      {s : Senses} {e : Encounter} {dt : Float32} : Lived c events a → env.config = c →
      a.tick env p s e dt = .ok (b, q) → Lived c (.tick :: events) { b with gossip := none }
  | reset {c : Config} {events : List Event} {a : Agent} : Lived c events a →
      Lived c (.reset a.consolidator.tasks.length :: events) a.renewed
  | rewarded {c : Config} {events : List Event} {a b : Agent} {p : StatePools} {reward : Float32}
      {report : PenaltyReport Float32} : Lived c events a → a.reinforce p c reward = .ok (report, b) →
      Lived c (.reward :: events) b
  | shifted {c : Config} {events : List Event} {a : Agent} (change : Float32) : Lived c events a →
      Lived c (.shift :: events) (a.shiftRelationship change)
  | resumed {c c' : Config} {events : List Event} {a a₀ b : Agent} {memory : MemoryRecord} {shared : Stack}
      {states states₀ : List CellState} {handles : List Handle} {left : Budget} {p q : StatePools} :
      Lived c' events a → a.memory.record = .ok memory →
      assemble a.profile a.binding (initialController a.binding shared) handles left c = .ok a₀ →
      Sees p.layers a₀.handles states₀ → a₀.restore (a.picture states memory) p = (.ok (), b, q) →
      Lived c events b

variable {c : Config} {a b : Agent} {env : Surroundings} {p q : StatePools}

/-! ### What an event changes -/

/-- The consolidator is as it was, or stored one task with that stamp. -/
def Stored (tick : UInt64) (k k' : Consolidator) : Prop :=
  k' = k ∨ ∃ id name optimal fisher importance pruned,
    k.consolidate id name optimal fisher importance tick = .ok (pruned, k')

/-- The consolidator is as it was, or stored one task with that stamp whose table was made from samples. -/
def Estimated (tick : UInt64) (k k' : Consolidator) : Prop :=
  k' = k ∨ ∃ id name optimal, ∃ samples : Accumulator, ∃ minFisher maxDensity importance pruned,
    k.consolidate id name optimal (samples.finish minFisher maxDensity) importance tick = .ok (pruned, k')

theorem Estimated.stored {tick : UInt64} {k k' : Consolidator} (h : Estimated tick k k') : Stored tick k k' := by
  rcases h with h | ⟨id, name, optimal, samples, minFisher, maxDensity, importance, pruned, h⟩
  · exact .inl h
  · exact .inr ⟨id, name, optimal, _, importance, pruned, h⟩

theorem estimated_consolidated (a : Agent) (c : Config.Consolidation) (taskId : Uuid) :
    Estimated a.ticks a.consolidator (a.consolidated c taskId) := by
  unfold consolidated
  split
  · exact .inl rfl
  · split
    · exact .inl rfl
    · dsimp only
      split
      · next hk => exact .inr ⟨_, _, _, _, _, _, _, _, hk⟩
      · exact .inl rfl

theorem estimated_learn (a : Agent) (p : StatePools) (c : Config) (taskId : Uuid) (memory : Memory)
    (experience : Vec) (importance : Float32) :
    Estimated a.ticks a.consolidator (a.learn p c taskId memory experience importance).consolidator := by
  obtain ⟨accumulator, hsample⟩ :=
    (a.note memory experience importance).sampleFisher_eq p c.controller.logitScale
  rw [learn_eq, hsample, consolidateInTime]
  split
  · exact estimated_consolidated { a.note memory experience importance with accumulator } c.consolidation taskId
  · exact .inl rfl

/-- What a tick does to an agent, as far as its affect, its clock and its tasks are concerned. -/
structure Ticked (env : Surroundings) (s : Senses) (e : Encounter) (dt : Float32) (a b : Agent) : Prop where
  profile : b.profile = a.profile
  affect : b.affect = a.affect.feel a.profile.archetype (.ofScene s e (s.percept e).combat)
    env.config.temper.affectRetention dt
  ticks : b.ticks = a.ticks + 1
  estimated : Estimated (a.ticks + 1) a.consolidator b.consolidator

theorem Ticked.consolidator {s : Senses} {e : Encounter} {dt : Float32} (h : Ticked env s e dt a b) :
    Stored (a.ticks + 1) a.consolidator b.consolidator := h.estimated.stored

theorem of_remember {taskId : Uuid} {query : Vec} (h : a.remember p c taskId query = .ok b) :
    b.profile = a.profile ∧ b.affect = a.affect ∧ b.ticks = a.ticks ∧
      Estimated a.ticks a.consolidator b.consolidator := by
  obtain rfl | ⟨-, experience, strength, stored, memory, -, rfl⟩ := remember_cases h
  · exact ⟨rfl, rfl, rfl, .inl rfl⟩
  · have hestimated := a.estimated_learn p c taskId memory experience a.decision.memoryWriteSignal
    obtain ⟨_, _, _, _, hlearn⟩ := a.learn_eq_note p c taskId memory experience a.decision.memoryWriteSignal
    rw [hlearn] at hestimated ⊢
    exact ⟨rfl, rfl, rfl, hestimated⟩

theorem attend_eq (a : Agent) (c : Config.Temper) (s : Senses) (e : Encounter) :
    ∃ attention, (a.attend c s e).2 = { a with attention, ticks := a.ticks + 1 } := ⟨_, rfl⟩

theorem feel_affect (a : Agent) (c : Config.Temper) (s : Senses) (e : Encounter) (dt : Float32) :
    a.feel c s e dt = { a with
      affect := a.affect.feel a.profile.archetype (.ofScene s e (s.percept e).combat) c.affectRetention dt } :=
  rfl

theorem express_eq (a : Agent) (e : Encounter) : ∃ decision, a.express e = { a with decision } := ⟨_, rfl⟩

theorem ticked_of_tick {s : Senses} {e : Encounter} {dt : Float32} (h : a.tick env p s e dt = .ok (b, q)) :
    Ticked env s e dt a b := by
  obtain ⟨attention, hattend⟩ := a.attend_eq env.config.temper s e
  unfold Agent.tick at h
  dsimp only at h
  generalize a.attend env.config.temper s e = r at hattend h
  obtain ⟨attended, a₁⟩ := r
  subst hattend
  obtain ⟨query, -, h⟩ := ok_of_bind h
  obtain ⟨longTermContext, -, h⟩ := ok_of_bind h
  obtain ⟨⟨a₂, q₂⟩, hdecide, h⟩ := ok_of_bind h
  obtain ⟨a₃, hremember, h⟩ := ok_of_bind h
  cases h
  obtain ⟨_, _, _, rfl, -⟩ := decide_eq hdecide
  rw [feel_affect] at hremember
  obtain ⟨hprofile, haffect, hticks, hestimated⟩ := of_remember hremember
  obtain ⟨_, hexpress⟩ := a₃.express_eq e
  rw [hexpress]
  exact ⟨hprofile, haffect, hticks, hestimated⟩

/-- A reward changes the parameters and their binding, and nothing else. -/
theorem of_reinforce {reward : Float32} {report : PenaltyReport Float32}
    (h : a.reinforce p c reward = .ok (report, b)) : ∃ controller binding, b = { a with controller, binding } := by
  unfold Agent.reinforce at h
  split at h
  · cases h
  · next stack _ =>
    obtain ⟨rewards, -, h⟩ := ok_of_bind h
    obtain ⟨pulls, -, h⟩ := ok_of_bind h
    obtain ⟨report', -, h⟩ := ok_of_bind h
    cases h
    unfold applyUpdates
    split
    · exact ⟨a.controller, a.binding, rfl⟩
    · exact ⟨_, _, rfl⟩

/-- What a resumed agent takes from a snapshot, as far as its affect, its clock and its tasks are
concerned. -/
theorem resumed_of_restore {s : Snapshot} {states : List CellState} (hv : Sees p.layers a.handles states)
    (h : a.restore s p = (.ok (), b, q)) : b.profile = a.profile ∧ b.affect = s.affect ∧ b.ticks = s.ticks ∧
      a.consolidator.restore s.consolidator = .ok b.consolidator := by
  obtain ⟨a₁, next, -, hparameters, -, hrecords, -⟩ := of_restore hv h
  obtain ⟨memory, consolidator, accumulator, -, hconsolidator, -, rfl⟩ := of_takeRecords hrecords
  rcases takeParameters_cases hparameters with ⟨-, rfl⟩ | ⟨_, _, _, -, -, -, rfl⟩
  · exact ⟨rfl, rfl, rfl, hconsolidator⟩
  · exact ⟨rfl, rfl, rfl, hconsolidator⟩

/-! ### Every agent has lived through something -/

theorem lasting_lived (c : Config) : Lasting c (fun _ => True) fun a _ => ∃ events, a.Lived c events where
  tick {env a p states} s e dt hc _ _ ha hv := by
    obtain ⟨events, ha⟩ := ha
    obtain ⟨out, b, next, -, hlen, hact, -⟩ := isLocal_tickAct env s e dt a p p states hv hv
    refine ⟨out, b, next, hact, hlen, ?_⟩
    unfold tickAct at hact
    cases ht : a.tick env p s e dt with
    | error err =>
      rw [ht] at hact
      obtain ⟨rfl, -⟩ := Prod.mk.inj (Prod.mk.inj hact).2
      exact ⟨events, ha⟩
    | ok r =>
      rw [ht] at hact
      obtain ⟨rfl, -⟩ := Prod.mk.inj (Prod.mk.inj hact).2
      exact ⟨_, ha.ticked hc ht⟩
  reset := by
    rintro a states ⟨events, ha⟩
    exact ⟨_, ha.reset⟩
  reinforce := by
    rintro a b p states reward report ⟨events, ha⟩ hr
    exact ⟨_, ha.rewarded hr⟩
  shift := by
    rintro a states change ⟨events, ha⟩
    exact ⟨_, ha.shifted change⟩

end Agent

namespace Society

theorem enduring_true : Enduring fun _ => True := ⟨fun _ _ => trivial, fun _ => trivial, fun _ _ => trivial⟩

/-- Every agent has lived through some events. -/
def Experienced (c : Config) : Society → Prop :=
  Each c (fun _ => True) fun a _ => ∃ events, a.Lived c events

variable {c c' : Config} {w w' : Society} {id : Uuid}

theorem Experienced.serve (hw : w.Experienced c) {r : Request} (hr : r.bringsRecord = false) :
    (w.serve r).2.Experienced c := by
  cases r with
  | spawn p => exact Each.spawnWith hw fun _ _ _ hass => ⟨[], .spawned hass⟩
  | spawnWith p binding => exact Each.spawnWith hw fun _ _ _ hass => ⟨[], .spawned hass⟩
  | load s => cases hr
  | _ => exact Each.serve_stay hw (Agent.lasting_lived c) enduring_true rfl

/-- What is resumed goes on with the events of the agent that was saved. -/
theorem Experienced.load (hw : w.Experienced c) (hw' : w'.Experienced c') {s : Snapshot}
    (hs : w'.save id = .ok s) : (w.load s).2.Experienced c := by
  obtain ⟨a, ha, -⟩ := ok_of_bind hs
  obtain ⟨states, ha⟩ := hw'.owned.holds_agent ha
  obtain ⟨memory, hm, rfl⟩ := ha.of_save hs
  obtain ⟨events, hlived⟩ := hw'.holds id a states ha
  refine Each.load hw fun handles left a₀ hass => ⟨⟨[], .spawned hass⟩, fun b p next hsees hrestore _ => ?_⟩
  exact ⟨events, hlived.resumed hm hass hsees hrestore⟩

end Society

/-- **As long as nothing is loaded that was not saved, every agent has a history**: it was spawned, and
after that it ticked, was reset, was rewarded and had its relationship shifted. -/
theorem Genuine.experienced {c : Config} {w : Society} (hw : Genuine c w) : w.Experienced c := by
  induction hw with
  | start _ h => exact Society.each_ofConfig h fun _ _ => trivial
  | next r hr _ ih => exact ih.serve hr
  | load _ _ hs ih ih' => exact ih.load ih' hs
  | restoreGossip _ _ _ ih _ =>
    exact Society.Each.serve_stay ih (Agent.lasting_lived _) Society.enduring_true rfl

end NpcMind
