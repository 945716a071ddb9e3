import NpcMind.Proofs.Histories
import NpcMind.Proofs.Steadiness

/-!
# Chronicles

A tick comes to a decision, feels, and then either remembers what happened or does not. `Agent.tick_cases`
says all that this does to what an agent has learned, so that nothing else has to look into a tick. A
chronicle is the list of what an agent went through, with the decision of each tick; `Agent.Chronicled` ties
it to the agent. Every agent of every society has one, as long as nothing is loaded but what societies saved.
In a society that is native to its configuration, all of these societies have the same configuration.
-/

namespace NpcMind

open StatePools Outcome

theorem Stack.layers_ne_nil {inputSize : Nat} {c : Config.Controller} {stack : Stack}
    (h : ofConfig inputSize c = .ok stack) : stack.layers ≠ [] := by
  intro hnil
  have hsizes := hiddenSizes_ofConfig h
  rw [hiddenSizes, hnil] at hsizes
  unfold ofConfig at h
  rw [← hsizes] at h
  cases h

theorem Kernel.size_softmax (x : Vec) : (softmax x).size = x.size := by
  unfold softmax
  dsimp only
  split
  · rw [Array.size_map, Array.size_map]
  · exact Array.size_replicate

namespace Choice

theorem size_favour (biases : List (Action × Float32)) (probs : Vec) : (favour biases probs).size = probs.size := by
  unfold favour
  induction biases generalizing probs with
  | nil => rfl
  | cons bias rest ih => rw [List.foldl_cons, ih, Array.size_modify]

theorem size_normalize (weights : Vec) : (normalize weights).size = weights.size := by
  unfold normalize
  dsimp only
  split
  · exact Array.size_map
  · exact Array.size_mapIdx

/-- A distribution has a probability for each action. -/
theorem size_distribution {readout probabilities : Vec} {logitScale : Float32} {archetype : Archetype}
    {company : Bool} (h : distribution readout logitScale archetype company = .ok probabilities) :
    probabilities.size = Action.count := by
  obtain ⟨_, hwithin, h⟩ := ok_of_bind h
  have hcount := le_of_requireWithin hwithin
  cases h
  have hfavoured : (favour archetype.actionBiases
      (Kernel.softmax ((readout.extract 0 Action.count).map (· * logitScale)))).size = Action.count := by
    rw [size_favour, Kernel.size_softmax, Array.size_map, Array.size_extract, Nat.min_eq_left hcount, Nat.sub_zero]
  rw [size_normalize]
  split
  · exact hfavoured
  · exact Array.size_mapIdx.trans hfavoured

end Choice

namespace Agent

variable {c : Config} {shared : Stack} {a b d : Agent} {env : Surroundings} {p q : StatePools} {states : List CellState}
  {s : Senses} {e : Encounter} {dt : Float32}

/-! ### One tick -/

/-- The agent has decided and felt, and has neither remembered nor learned anything yet. It drew a number if it
did not act by reflex, for which it takes a controller. -/
structure Poised (a d : Agent) : Prop where
  profile : d.profile = a.profile
  binding : d.binding = a.binding
  controller : d.controller = a.controller
  handles : d.handles = a.handles
  memory : d.memory = a.memory
  consolidator : d.consolidator = a.consolidator
  accumulator : d.accumulator = a.accumulator
  writesSinceConsolidation : d.writesSinceConsolidation = a.writesSinceConsolidation
  importanceSum : d.importanceSum = a.importanceSum
  sampler : d.sampler = if d.decision.degraded then a.sampler else a.sampler.next.2
  attached : d.decision.degraded = false → a.controller.isSome = true
  chosen : d.decision.degraded = false → d.probabilities.size = Action.count

theorem poised_reflex (a : Agent) (percept : Percept) (e : Encounter) : Poised a (a.actByReflex percept e) :=
  ⟨rfl, rfl, rfl, rfl, rfl, rfl, rfl, rfl, rfl, rfl, Bool.noConfusion, Bool.noConfusion⟩

theorem poised_choose {readout : Vec} {company : Bool} (hc : a.controller.isSome = true)
    (h : a.choose c readout company = .ok d) : Poised a d := by
  unfold choose at h
  obtain ⟨probabilities, hchosen, h⟩ := ok_of_bind h
  obtain ⟨signals, -, h⟩ := ok_of_bind h
  cases h
  exact ⟨rfl, rfl, rfl, rfl, rfl, rfl, rfl, rfl, rfl, rfl, fun _ => hc, fun _ => Choice.size_distribution hchosen⟩

theorem poised_decide {attended : Vec} {percept : Percept}
    (h : a.decide env p attended percept e = .ok (d, q)) : Poised a d := by
  unfold Agent.decide at h
  split at h
  · cases h
    exact poised_reflex a percept e
  · next stack hc =>
    split at h
    · split at h
      · cases h
      · cases h
        exact poised_reflex a percept e
      · obtain ⟨d', hd, h⟩ := ok_of_bind h
        cases h
        exact poised_choose (hc ▸ rfl) hd
    · cases h
      exact poised_reflex a percept e

/-- **What a tick does**: the agent gets ready to remember, and then it either forgoes the tick or learns from
what it wrote into its memory. -/
theorem tick_cases (h : a.tick env p s e dt = .ok (b, q)) : ∃ d, Poised a d ∧
    (b = d.forgo.express e ∨ d.decision.degraded = false ∧ ∃ experience strength stored memory,
      a.memory.write experience strength = .ok (some stored, memory) ∧
      b = (d.learn q env.config env.taskId memory experience d.decision.memoryWriteSignal).express e) := by
  rw [tick_eq] at h
  obtain ⟨query, -, h⟩ := ok_of_bind h
  obtain ⟨context, -, h⟩ := ok_of_bind h
  obtain ⟨⟨d, q'⟩, hdecide, h⟩ := ok_of_bind h
  obtain ⟨b', hremember, h⟩ := ok_of_bind h
  cases h
  have hd := poised_decide hdecide
  obtain ⟨affect, hfeel⟩ := d.feel_eq env.config.temper s e dt
  rw [hfeel] at hremember
  refine ⟨{ d with affect }, ⟨hd.profile, hd.binding, hd.controller, hd.handles, hd.memory, hd.consolidator,
    hd.accumulator, hd.writesSinceConsolidation, hd.importanceSum, hd.sampler, hd.attached,
    hd.chosen⟩, ?_⟩
  obtain rfl | ⟨hon, experience, strength, stored, memory, hw, rfl⟩ := remember_cases hremember
  · exact .inl rfl
  · exact .inr ⟨hon, experience, strength, stored, memory, hd.memory ▸ hw, rfl⟩

theorem tick_states (h : a.tick env p s e dt = .ok (b, q)) (hv : Sees p.layers a.handles states)
    (hs : StatesFit a.controller states) : ∃ next, q = p.put a.handles next ∧ StatesFit a.controller next := by
  rw [tick_eq] at h
  obtain ⟨query, -, h⟩ := ok_of_bind h
  obtain ⟨context, -, h⟩ := ok_of_bind h
  obtain ⟨⟨d, q'⟩, hdecide, h⟩ := ok_of_bind h
  obtain ⟨b', -, h⟩ := ok_of_bind h
  cases h
  exact decide_states (a := a.mindful env s e context) hdecide hv hs

/-! ### What is expressed and what is learned -/

theorem express_decision (a : Agent) (e : Encounter) : ∃ decision, a.express e = { a with decision } ∧
    decision.degraded = a.decision.degraded ∧ decision.memoryWritten = a.decision.memoryWritten := by
  refine ⟨_, rfl, ?_⟩
  obtain ⟨speech, hspeech⟩ := compose_eq { a.decision with
    dominantEmotion := a.affect.dominant.1
    emotionalTone := a.affect.dominant.2
    attention := a.attention.levels
    tick := a.ticks } a.affect e
  rw [hspeech]
  exact ⟨rfl, rfl⟩

/-! ### Controllers and their states -/

/-- The controller has the shape of the shared one, and there is a state for each of its layers. -/
structure Tailored (shared : Stack) (a : Agent) (states : List CellState) : Prop where
  fits : ∀ stack, a.controller = some stack → stack.Fits shared
  states : StatesFit a.controller states

theorem Whole.tailored (h : Whole c shared a states) : Tailored shared a states :=
  ⟨fun _ hs => (h.sound.bound.fits hs).2, h.states⟩

theorem Tailored.tick (h : Tailored shared a states) (hv : Sees p.layers a.handles states)
    (ht : a.tick env p s e dt = .ok (b, q)) :
    ∃ next, q = p.put a.handles next ∧ next.length = states.length ∧ Tailored shared b next := by
  obtain ⟨next, hput, hnext⟩ := tick_states ht hv h.states
  refine ⟨next, hput, hnext.length_eq.symm.trans h.states.length_eq, ?_⟩
  rw [← (tick_parameters ht).2] at hnext
  exact ⟨(tick_parameters ht).2 ▸ h.fits, hnext⟩

theorem Tailored.reinforce (h : Tailored shared a states) {reward : Float32} {report : PenaltyReport Float32}
    (hr : a.reinforce p c reward = .ok (report, b)) : Tailored shared b states := by
  unfold Agent.reinforce at hr
  split at hr
  · cases hr
  · next stack hs =>
    obtain ⟨rewards, -, hr⟩ := ok_of_bind hr
    obtain ⟨pulls, -, hr⟩ := ok_of_bind hr
    obtain ⟨_, -, hr⟩ := ok_of_bind hr
    cases hr
    unfold Agent.applyUpdates
    split
    · exact h
    · have hfits := h.fits stack hs
      have hstates := h.states
      rw [hs] at hstates
      refine ⟨?_, statesFit_of_fits hstates hfits (hfits.addAll _)⟩
      rintro _ ⟨⟩
      exact hfits.addAll _

/-- As the controller has layers, the gradient of a choice is there to be sampled. -/
theorem Tailored.policyGradient_ok (h : Tailored shared a states) (hne : shared.layers ≠ [])
    (hv : Sees p.layers a.handles states) (hs : a.controller.isSome = true) (logitScale : Float32) :
    ∃ gradient, a.policyGradient p logitScale = .ok gradient := by
  obtain ⟨stack, hs⟩ := Option.isSome_iff_exists.mp hs
  have hlayers : stack.layers ≠ [] := by
    intro hnil
    have hfits := (h.fits stack hs).layers
    rw [hnil] at hfits
    exact hne (List.forall₂_nil_left_iff.mp hfits)
  simp only [Agent.policyGradient, hs]
  exact Stack.finalGradient_ok hv (depth_of_statesFit h.states hv hs) hlayers _

/-! ### Resuming -/

/-- What a resumed agent has from the one that was saved, as far as it is learned. -/
structure TakesAfter (memory : MemoryRecord) (a a₀ b : Agent) : Prop where
  memory : a₀.memory.restore memory = .ok b.memory
  consolidator : a₀.consolidator.restore a.consolidator.toRecord = .ok b.consolidator
  accumulator : a₀.accumulator.restore a.accumulator.toRecord = .ok b.accumulator
  sampler : b.sampler = a.sampler
  writesSinceConsolidation : b.writesSinceConsolidation = a.writesSinceConsolidation

theorem takesAfter_of_restore {memory : MemoryRecord} {states₀ : List CellState} {a₀ : Agent}
    (hv : Sees p.layers a₀.handles states₀) (h : a₀.restore (a.picture states memory) p = (.ok (), b, q)) :
    TakesAfter memory a a₀ b := by
  obtain ⟨a₁, next, -, hparameters, -, hrecords, -⟩ := of_restore hv h
  obtain ⟨_, _, _, hmemory, hconsolidator, haccumulator, rfl⟩ := of_takeRecords hrecords
  rcases takeParameters_cases hparameters with ⟨-, rfl⟩ | ⟨_, _, _, -, -, -, rfl⟩
  · exact ⟨hmemory, hconsolidator, haccumulator, rfl, rfl⟩
  · exact ⟨hmemory, hconsolidator, haccumulator, rfl, rfl⟩

/-! ### Many ticks -/

/-- The agent was spawned, and these are the decisions of its ticks since then or since the last reset, the
latest first. It may have been saved and resumed in the meantime, with a configuration near its former one. -/
inductive Chronicled (near : Config → Config → Prop) : Config → List Decision → Agent → Prop
  | spawned {c : Config} {profile : Profile} {binding : Binding} {shared : Stack} {handles : List Handle}
      {left : Budget} {a : Agent} :
      Stack.ofConfig (controllerInputWidth c.memory.width) c.controller = .ok shared →
      assemble profile binding (initialController binding shared) handles left c = .ok a →
      Chronicled near c [] a
  | ticked {c : Config} {ds : List Decision} {a b : Agent} {env : Surroundings} {p q : StatePools}
      {shared : Stack} {states : List CellState} {s : Senses} {e : Encounter} {dt : Float32} :
      Chronicled near c ds a → env.config = c →
      Stack.ofConfig (controllerInputWidth c.memory.width) c.controller = .ok shared →
      Tailored shared a states → Sees p.layers a.handles states → a.tick env p s e dt = .ok (b, q) →
      Chronicled near c (b.decision :: ds) { b with gossip := none }
  | reset {c : Config} {ds : List Decision} {a : Agent} : Chronicled near c ds a → Chronicled near c [] a.renewed
  | rewarded {c : Config} {ds : List Decision} {a b : Agent} {p : StatePools} {reward : Float32}
      {report : PenaltyReport Float32} : Chronicled near c ds a → a.reinforce p c reward = .ok (report, b) →
      Chronicled near c ds b
  | shifted {c : Config} {ds : List Decision} {a : Agent} (change : Float32) : Chronicled near c ds a →
      Chronicled near c ds (a.shiftRelationship change)
  | resumed {c c' : Config} {ds : List Decision} {a a₀ b : Agent} {memory : MemoryRecord} {shared : Stack}
      {states states₀ : List CellState} {handles : List Handle} {left : Budget} {p q : StatePools} :
      Chronicled near c' ds a → near c' c → a.memory.record = .ok memory →
      Stack.ofConfig (controllerInputWidth c.memory.width) c.controller = .ok shared →
      assemble a.profile a.binding (initialController a.binding shared) handles left c = .ok a₀ →
      Sees p.layers a₀.handles states₀ → a₀.restore (a.picture states memory) p = (.ok (), b, q) →
      Chronicled near c ds b

/-- Whatever happens to an agent, its chronicle goes on. -/
theorem lasting_chronicled (near : Config → Config → Prop)
    (hc : Stack.ofConfig (controllerInputWidth c.memory.width) c.controller = .ok shared) :
    Lasting c (fun _ => True) fun a states => Tailored shared a states ∧ ∃ ds, a.Chronicled near c ds where
  tick {env a p states} s e dt henv _ _ ha hv := by
    obtain ⟨hfit, ds, ha⟩ := ha
    cases ht : a.tick env p s e dt with
    | error err =>
      refine ⟨.error err, a, states, ?_, rfl, hfit, ds, ha⟩
      simp only [tickAct, ht, put_of_sees hv]
    | ok r =>
      obtain ⟨b, q⟩ := r
      obtain ⟨next, rfl, hlen, hnext⟩ := hfit.tick hv ht
      exact retains_tick ht hlen ⟨⟨hnext.fits, hnext.states⟩, _, ha.ticked henv hc hfit hv ht⟩
  reset := by
    rintro a states ⟨hfit, ds, ha⟩
    exact ⟨⟨hfit.fits, statesFit_reset hfit.states⟩, _, ha.reset⟩
  reinforce := by
    rintro a b p states reward report ⟨hfit, ds, ha⟩ hr
    exact ⟨hfit.reinforce hr, ds, ha.rewarded hr⟩
  shift := by
    rintro a states change ⟨hfit, ds, ha⟩
    exact ⟨⟨hfit.fits, hfit.states⟩, ds, ha.shifted change⟩

end Agent

namespace Society

variable {c c' : Config} {near : Config → Config → Prop} {w w' : Society} {id : Uuid} {r : Request}

/-- Every agent has a chronicle. -/
def Chronicled (near : Config → Config → Prop) (c : Config) : Society → Prop :=
  Each c (fun _ => True) fun a _ => ∃ ds, a.Chronicled near c ds

theorem Chronicled.serve_stay (hw : w.Chronicled near c) (hs : w.Sound c) (hr : r.adds = false) :
    (w.serve r).2.Chronicled near c := by
  have hfit : Each c (fun _ => True)
      (fun a states => a.Tailored w.controller states ∧ ∃ ds, a.Chronicled near c ds) w :=
    ⟨hw.owned, trivial, fun id a states h => ⟨(hs.whole id a states h).tailored, hw.holds id a states h⟩⟩
  have hnext := hfit.serve_stay (Agent.lasting_chronicled near hw.owned.stack) enduring_true hr
  exact ⟨hnext.owned, trivial, fun id a states h => (hnext.holds id a states h).2⟩

theorem Chronicled.serve (hw : w.Chronicled near c) (hs : w.Sound c) (hr : r.bringsRecord = false) :
    (w.serve r).2.Chronicled near c := by
  cases r with
  | spawn p => exact Each.spawnWith hw fun _ _ _ hass => ⟨[], .spawned hw.owned.stack hass⟩
  | spawnWith p binding => exact Each.spawnWith hw fun _ _ _ hass => ⟨[], .spawned hw.owned.stack hass⟩
  | load s => cases hr
  | _ => exact hw.serve_stay hs rfl

/-- A resumed agent goes on with the chronicle of the one that was saved. -/
theorem Chronicled.load (hw : w.Chronicled near c) (hw' : w'.Chronicled near c') (hnear : near c' c)
    {s : Snapshot} (hs : w'.save id = .ok s) : (w.load s).2.Chronicled near c := by
  obtain ⟨a, ha, -⟩ := ok_of_bind hs
  obtain ⟨states, ha⟩ := hw'.owned.holds_agent ha
  obtain ⟨memory, hm, rfl⟩ := ha.of_save hs
  obtain ⟨ds, hds⟩ := hw'.holds id a states ha
  have hstack := hw.owned.stack
  refine Each.load hw fun handles left a₀ hass => ⟨⟨[], .spawned hstack hass⟩, fun b p next hsees hrestore _ => ?_⟩
  exact ⟨ds, hds.resumed hnear hm hstack hass hsees hrestore⟩

/-- What a tick that succeeded did to the agent and to the board. -/
theorem Holds.of_tick {a : Agent} {states : List CellState} (ha : w.Holds id a states) {s : Senses}
    {e : Encounter} {dt : Float32} {taskId : Uuid} {d : Decision} (h : w.tick id s e dt taskId = (.ok d, w')) :
    ∃ b next, a.tick (w.surroundings taskId) w.pools s e dt = .ok (b, w.pools.put a.handles next) ∧ b.decision = d ∧
      w'.Holds id { b with gossip := none } next ∧ w'.board = (tell w.board b).1 := by
  cases ht : a.tick (w.surroundings taskId) w.pools s e dt with
  | error err =>
    rw [ha.tick_error ht] at h
    cases h
  | ok r =>
    obtain ⟨b, q⟩ := r
    obtain ⟨_, _, next, hkeep, hlen, hact, -⟩ :=
      Agent.isLocal_tickAct (w.surroundings taskId) s e dt a w.pools w.pools states ha.sees ha.sees
    simp only [Agent.tickAct, ht, Prod.mk.injEq] at hact
    obtain ⟨-, rfl, rfl⟩ := hact
    obtain ⟨hout, hholds, hboard⟩ := ha.tick ht hlen hkeep.handles
    rw [h] at hout hholds hboard
    exact ⟨b, next, rfl, (Except.ok.inj hout).symm, hholds, hboard⟩

end Society

/-- **As long as nothing is loaded that was not saved, every agent has a chronicle.** -/
theorem Genuine.chronicled {c : Config} {w : Society} (hw : Genuine c w) :
    w.Chronicled (fun _ _ => True) c := by
  induction hw with
  | start _ h => exact Society.each_ofConfig h fun _ _ => trivial
  | next r hr hw ih => exact ih.serve hw.sound hr
  | load _ _ hs ih ih' => exact ih.load ih' trivial hs
  | restoreGossip hw _ _ ih _ => exact ih.serve_stay hw.sound rfl

/-- A society of that configuration after some requests, with nothing loaded but what such societies saved. -/
inductive Native (c : Config) : Society → Prop
  | start {w : Society} (detected : Backend) : Society.ofConfig c detected = .ok w → Native c w
  | next {w : Society} (r : Request) : r.bringsRecord = false → Native c w → Native c (w.serve r).2
  | load {w w' : Society} {id : Uuid} {s : Snapshot} : Native c w → Native c w' → w'.save id = .ok s →
      Native c (w.load s).2
  | restoreGossip {w w' : Society} {r : MemoryRecord} : Native c w → Native c w' →
      w'.gossipRecord = .ok (some r) → Native c (w.serve (.restoreGossip r)).2

theorem Native.genuine {c : Config} {w : Society} (hw : Native c w) : Genuine c w := by
  induction hw with
  | start detected h => exact .start detected h
  | next r hr _ ih => exact .next r hr ih
  | load _ _ hs ih ih' => exact .load ih ih' hs
  | restoreGossip _ _ hr ih ih' => exact .restoreGossip ih ih' hr

/-- **Where all societies have one configuration, so have the chronicles of their agents.** -/
theorem Native.chronicled {c : Config} {w : Society} (hw : Native c w) : w.Chronicled Eq c := by
  induction hw with
  | start _ h => exact Society.each_ofConfig h fun _ _ => trivial
  | next r hr hw ih => exact ih.serve hw.genuine.sound hr
  | load _ _ hs ih ih' => exact ih.load ih' rfl hs
  | restoreGossip hw _ _ ih _ => exact ih.serve_stay hw.genuine.sound rfl

/-! ### Agents that decide on their own -/

section

variable {c : Config} {w : Society} {id : Uuid} {a : Agent} {states : List CellState}

/-- Where ticks cannot fail, an agent with a controller decides on its own unless its states are upset, and they
are not afterwards. Where `c` is `Retentive`, it remembers what it decided on its own. -/
theorem Reachable.tick_own (hw : Reachable c w) (hc : c.Steady w.controller) (hheld : w.Holds id a states)
    (hb : a.binding ≠ .detached) (s : Senses) (e : Encounter) (dt : Float32) (taskId : Uuid) :
    ∃ b next, a.tick (w.surroundings taskId) w.pools s e dt = .ok (b, w.pools.put a.handles next) ∧
      (w.tick id s e dt taskId).1 = .ok b.decision ∧
      (w.tick id s e dt taskId).2.Holds id { b with gossip := none } next ∧ b.binding = a.binding ∧
      ¬ Agent.Upset next ∧ (¬ Agent.Upset states →
        b.decision.degraded = false ∧ (c.Retentive → b.decision.memoryWritten = true)) := by
  obtain ⟨b, next, hok, hheld', -, hfinite, -, hdegraded, hwritten⟩ := hw.tick_ready hc hheld s e dt taskId
  obtain ⟨b', next', ht, hdecision, hheld'', -⟩ := hheld.of_tick (Prod.ext hok rfl)
  obtain ⟨-, rfl⟩ := hheld'.unique hheld''
  refine ⟨b', next, ht, hok.trans (congrArg _ hdecision.symm), hheld'', (Agent.tick_parameters ht).1, ?_,
    fun hcalm => ?_⟩
  · rintro ⟨t, ht, hupset⟩
    rw [hfinite t ht] at hupset
    cases hupset
  · have hown : b.decision.degraded = false := Bool.not_eq_true _ ▸ fun hd => (hdegraded.mp hd).elim hb hcalm
    rw [hdecision]
    exact ⟨hown, fun hretentive => hwritten hretentive hown⟩

/-- The agent `id` of a native society where ticks cannot fail. It has a controller and its states are not upset, so
that it decides on its own the next time. -/
structure Society.Awake (c : Config) (id : Uuid) (w : Society) (a : Agent) (states : List CellState) : Prop where
  native : Native c w
  steady : c.Steady w.controller
  holds : w.Holds id a states
  attached : a.binding ≠ .detached
  calm : ¬ Agent.Upset states

theorem Genuine.steady (hw : Genuine c w) (hguard : c.numerics.guard = .sanitize)
    (hmemory : Memory.hasBuffer c.memory.slots c.memory.width = true)
    (hboard : c.limits.gossipSlots = 0 ∨ Memory.hasBuffer c.limits.gossipSlots c.memory.width = true) :
    c.Steady w.controller :=
  ⟨hw.sound.valid, hguard, hmemory, hboard, hw.sound.owned.stack⟩

theorem Config.Steady.next {w w' : Society} (hc : c.Steady w.controller) (hw : Native c w)
    (hw' : Native c w') : c.Steady w'.controller := by
  rw [hw.genuine.sound.owned.controller_eq hw'.genuine.sound.owned]
  exact hc

theorem Native.awake (hw : Native c w) (hc : c.Steady w.controller) {p : Profile} {binding : Binding}
    (hb : binding ≠ .detached) (h : (w.spawnWith p binding).1 = .ok id) :
    ∃ a states handles left, Society.Awake c p.id (w.spawnWith p binding).2 a states ∧
      Agent.assemble p binding (Agent.initialController binding w.controller) handles left c = .ok a := by
  obtain ⟨a, handles, left, hheld, hass⟩ := hw.genuine.sound.owned.holds_spawned h
  have hnext : Native c (w.spawnWith p binding).2 := hw.next (.spawnWith p binding) rfl
  refine ⟨a, _, handles, left, ⟨hnext, hc.next hw hnext, hheld, ?_, ?_⟩, hass⟩
  · obtain ⟨_, _, _, -, -, rfl⟩ := Agent.assemble_cases hass
    exact hb
  · rintro ⟨t, ht, hupset⟩
    rw [Agent.initialStates, if_neg hb] at ht
    obtain ⟨cell, -, rfl⟩ := List.mem_map.mp ht
    rw [CellState.isFinite_initial] at hupset
    cases hupset

namespace Society.Awake

/-- **An agent that is awake decides on its own**, and is awake afterwards. -/
theorem tick (h : Awake c id w a states) (s : Senses) (e : Encounter) (dt : Float32) (taskId : Uuid) :
    ∃ b next, a.tick (w.surroundings taskId) w.pools s e dt = .ok (b, w.pools.put a.handles next) ∧
      (w.tick id s e dt taskId).1 = .ok b.decision ∧
      Awake c id (w.tick id s e dt taskId).2 { b with gossip := none } next ∧ b.decision.degraded = false ∧
      (c.Retentive → b.decision.memoryWritten = true) := by
  obtain ⟨b, next, ht, hok, hheld, hbinding, hcalm, hown⟩ :=
    h.native.genuine.reachable.tick_own h.steady h.holds h.attached s e dt taskId
  have hnext : Native c (w.tick id s e dt taskId).2 := h.native.next (.tick id s e dt taskId) rfl
  exact ⟨b, next, ht, hok, ⟨hnext, h.steady.next h.native hnext, hheld,
    fun hd => h.attached (hbinding.symm.trans hd), hcalm⟩, hown h.calm⟩

theorem reset (h : Awake c id w a states) :
    Awake c id (w.reset id).2 a.renewed (states.map CellState.reset) := by
  have hnext : Native c (w.reset id).2 := h.native.next (.reset id) rfl
  refine ⟨hnext, h.steady.next h.native hnext, h.holds.reset.2, h.attached, ?_⟩
  rintro ⟨t, ht, hupset⟩
  obtain ⟨t₀, -, rfl⟩ := List.mem_map.mp ht
  rw [t₀.isFinite_reset] at hupset
  cases hupset

end Society.Awake

end

end NpcMind
