import NpcMind.Proofs.Locality
import NpcMind.Proofs.TaskIds

/-!
# Agents that decide alike

An agent has more to it than its next decision depends on. `Agent.Alike` relates two agents that agree on
the part that counts, and `CellState.Carries` two states of a layer that carry the same on to the next
step. A tick of one and a tick of the other make the same decision, and leave them alike. If they also
have the same to learn from, as `Agent.LearnsAlike` says, they learn the same. The identities that their tasks
get may differ.
-/

namespace NpcMind

open StatePools Outcome

/-- Both states carry the same on to the next step. -/
structure CellState.Carries (s s' : CellState) : Prop where
  hidden : s.hidden = s'.hidden
  cell : s.cell = s'.cell
  steps : s.steps = s'.steps

namespace CellState.Carries

theorem refl (s : CellState) : Carries s s := ⟨rfl, rfl, rfl⟩

theorem stepsAlike : Stack.StepsAlike Carries := by
  intro s s' h c b g input
  simp only [Cell.step, h.hidden, h.cell, h.steps]

theorem reset {s s' : CellState} (h : Carries s s') : Carries s.reset s'.reset := by
  simp only [CellState.reset, h.hidden, h.cell]
  exact ⟨rfl, rfl, rfl⟩

theorem isFinite {s s' : CellState} (h : Carries s s') : s.isFinite = s'.isFinite := by
  simp only [CellState.isFinite, h.hidden, h.cell]

theorem all_isFinite {states states' : List CellState} (hs : List.Forall₂ Carries states states') :
    states.all CellState.isFinite = states'.all CellState.isFinite := by
  induction hs with
  | nil => rfl
  | cons h _ ih => simp only [List.all_cons, h.isFinite, ih]

theorem toRecord {s s' : CellState} (h : Carries s s') : s.toRecord = s'.toRecord := by
  simp only [CellState.toRecord, h.hidden, h.cell, h.steps]

theorem map_toRecord {states states' : List CellState} (hs : List.Forall₂ Carries states states') :
    states.map CellState.toRecord = states'.map CellState.toRecord := by
  induction hs with
  | nil => rfl
  | cons h _ ih => rw [List.map_cons, List.map_cons, h.toRecord, ih]

end CellState.Carries

/-- Both offer the same to recall. -/
structure Surroundings.Alike (env env' : Surroundings) : Prop where
  config : env.config = env'.config
  backend : env.backend = env'.backend
  guard : env.guard = env'.guard
  board : env.board.map Board.memory = env'.board.map Board.memory

/-- What the controller or a reflex settled is the same. -/
structure Decision.SameCore (d d' : Decision) : Prop where
  action : d.action = d'.action
  confidence : d.confidence = d'.confidence
  intensity : d.intensity = d'.intensity
  movement : d.movement = d'.movement
  speed : d.speed = d'.speed
  memoryWriteSignal : d.memoryWriteSignal = d'.memoryWriteSignal
  learningRate : d.learningRate = d'.learningRate
  degraded : d.degraded = d'.degraded
  overBudget : d.overBudget = d'.overBudget

namespace Agent

/-- Both have the same of what their next decisions depend on. -/
structure Alike (a b : Agent) : Prop where
  profile : a.profile = b.profile
  controller : a.controller = b.controller
  outputSize : a.outputSize = b.outputSize
  memory : a.memory = b.memory
  affect : a.affect = b.affect
  levels : a.attention.levels = b.attention.levels
  expectation : a.attention.expectation = b.attention.expectation
  workingMemory : a.attention.workingMemory = b.attention.workingMemory
  longTermContext : a.longTermContext = b.longTermContext
  sampler : a.sampler = b.sampler
  ticks : a.ticks = b.ticks
  overBudget : a.decision.overBudget = b.decision.overBudget

/-- Both have learned the same, but for the identities of tasks, and have the same samples to learn from. -/
structure LearnsAlike (a b : Agent) : Prop where
  binding : a.binding = b.binding
  consolidator : a.consolidator.anonymous = b.consolidator.anonymous
  accumulator : a.accumulator = b.accumulator
  writesSinceConsolidation : a.writesSinceConsolidation = b.writesSinceConsolidation
  importanceSum : a.importanceSum = b.importanceSum

variable {a b : Agent} {env env' : Surroundings} {p p' : StatePools} {states states' : List CellState}

theorem LearnsAlike.symm (h : LearnsAlike a b) : LearnsAlike b a :=
  ⟨h.binding.symm, h.consolidator.symm, h.accumulator.symm, h.writesSinceConsolidation.symm,
    h.importanceSum.symm⟩

theorem LearnsAlike.trans {c : Agent} (hab : LearnsAlike a b) (hbc : LearnsAlike b c) : LearnsAlike a c :=
  ⟨hab.binding.trans hbc.binding, hab.consolidator.trans hbc.consolidator,
    hab.accumulator.trans hbc.accumulator, hab.writesSinceConsolidation.trans hbc.writesSinceConsolidation,
    hab.importanceSum.trans hbc.importanceSum⟩

/-! ### Attending and recalling -/

theorem Alike.attend (h : Alike a b) (c : Config.Temper) (s : Senses) (e : Encounter) :
    (a.attend c s e).1 = (b.attend c s e).1 ∧ Alike (a.attend c s e).2 (b.attend c s e).2 ∧
      (a.attend c s e).2.attention = (b.attend c s e).2.attention := by
  have hupdate (channels : Vec) (percept : Percept) (talking : Bool) (t : Archetype) :
      a.attention.update channels percept talking t c = b.attention.update channels percept talking t c := by
    simp only [Attention.update, h.levels, h.expectation, h.workingMemory]
  simp only [Agent.attend, h.profile, h.affect, h.ticks, hupdate]
  refine ⟨trivial, ?_, trivial⟩
  exact ⟨rfl, h.controller, h.outputSize, h.memory, rfl, rfl, rfl, rfl, h.longTermContext, h.sampler, rfl,
    h.overBudget⟩

theorem Alike.query (h : Alike a b) (attended : Vec) : a.query attended = b.query attended := by
  simp only [Agent.query, h.memory, h.affect]

theorem recallGossip_congr (he : env.Alike env') (query context : Vec) :
    recallGossip env query context = recallGossip env' query context := by
  have hboard := he.board
  unfold recallGossip
  rw [he.config, he.backend]
  cases hb : env.board with
  | none =>
    rw [hb] at hboard
    rw [Option.map_eq_none_iff.mp hboard.symm]
  | some board =>
    rw [hb] at hboard
    obtain ⟨board', hb', hm⟩ := Option.map_eq_some_iff.mp hboard.symm
    simp only [hb', Board.read, hm]

theorem Alike.recollect (h : Alike a b) (he : env.Alike env') (query : Vec) :
    a.recollect env query = b.recollect env' query := by
  simp only [Agent.recollect, recallOwn, h.memory, h.longTermContext, he.config, he.backend,
    recallGossip_congr he]

/-! ### Deciding -/

/-- Two agents after deciding, one from each of two agents, with the states that they put into their
pools. If they did not act by reflex, the two even have the same states. -/
structure DecidedAlike (a b : Agent) (p p' : StatePools) (n : Nat) (r r' : Agent × StatePools) : Prop where
  alike : Alike r.1 r'.1
  attention : r.1.attention = r'.1.attention
  core : r.1.decision.SameCore r'.1.decision
  learned : LearnsAlike a r.1
  learned' : LearnsAlike b r'.1
  handles : r.1.handles = a.handles
  handles' : r'.1.handles = b.handles
  states : ∃ next next' : List CellState, next.length = n ∧ next'.length = n ∧
    List.Forall₂ CellState.Carries next next' ∧ r.2 = p.put a.handles next ∧ r'.2 = p'.put b.handles next' ∧
    (r.1.decision.degraded = false → next = next' ∧ r.1.probabilities = r'.1.probabilities)

theorem byReflex_core {d d' : Decision} (h : d.overBudget = d'.overBudget) (percept : Percept)
    (e : Encounter) : (d.byReflex percept e).SameCore (d'.byReflex percept e) :=
  ⟨rfl, rfl, rfl, rfl, rfl, rfl, rfl, rfl, h⟩

theorem Alike.actByReflex (h : Alike a b) (percept : Percept) (e : Encounter) :
    Alike (a.actByReflex percept e) (b.actByReflex percept e) :=
  ⟨h.profile, h.controller, h.outputSize, h.memory, h.affect, h.levels, h.expectation, h.workingMemory,
    h.longTermContext, h.sampler, h.ticks, h.overBudget⟩

/-- Two agents that act by reflex, whatever becomes of their states. -/
theorem DecidedAlike.reflex (h : Alike a b) (ht : a.attention = b.attention) (percept : Percept)
    (e : Encounter) {next next' : List CellState} {n : Nat} (hlen : next.length = n)
    (hs : List.Forall₂ CellState.Carries next next') :
    DecidedAlike a b p p' n (a.actByReflex percept e, p.put a.handles next)
      (b.actByReflex percept e, p'.put b.handles next') where
  alike := h.actByReflex percept e
  attention := ht
  core := byReflex_core h.overBudget percept e
  learned := ⟨rfl, rfl, rfl, rfl, rfl⟩
  learned' := ⟨rfl, rfl, rfl, rfl, rfl⟩
  handles := rfl
  handles' := rfl
  states := by
    refine ⟨next, next', hlen, hs.length_eq.symm.trans hlen, hs, rfl, rfl, fun hd => ?_⟩
    cases hd

theorem Alike.choose (h : Alike a b) (ht : a.attention = b.attention) (c : Config) (readout : Vec)
    (company : Bool) {next : List CellState} {n : Nat} (hlen : next.length = n) :
    Agree (fun a' b' => DecidedAlike a b p p' n (a', p.put a.handles next) (b', p'.put b.handles next))
      (a.choose c readout company) (b.choose c readout company) := by
  unfold Agent.choose
  rw [h.profile, h.sampler]
  refine (agree_eq (Choice.distribution _ _ _ _)).bind fun probabilities _ _ _ hp => ?_
  cases hp
  refine (agree_eq (Choice.signals readout)).bind fun signals _ _ _ hs => ?_
  cases hs
  refine .ok ?_
  refine ⟨?_, ht, ?_, ⟨rfl, rfl, rfl, rfl, rfl⟩, ⟨rfl, rfl, rfl, rfl, rfl⟩, rfl, rfl, ?_⟩
  · exact ⟨rfl, h.controller, h.outputSize, h.memory, h.affect, h.levels, h.expectation, h.workingMemory,
      h.longTermContext, rfl, h.ticks, h.overBudget⟩
  · exact ⟨rfl, rfl, rfl, rfl, rfl, rfl, rfl, rfl, h.overBudget⟩
  · exact ⟨next, next, hlen, hlen, List.forall₂_same.mpr fun s _ => .refl s, rfl, rfl, fun _ => ⟨rfl, rfl⟩⟩

theorem Alike.decide (h : Alike a b) (ht : a.attention = b.attention) (he : env.Alike env')
    (hv : Sees p.layers a.handles states) (hv' : Sees p'.layers b.handles states')
    (hs : List.Forall₂ CellState.Carries states states') (attended : Vec) (percept : Percept)
    (e : Encounter) :
    Agree (DecidedAlike a b p p' states.length) (a.decide env p attended percept e)
      (b.decide env' p' attended percept e) := by
  have hinput : a.controllerInput attended = b.controllerInput attended := by
    simp only [controllerInput, h.workingMemory, h.longTermContext, h.affect]
  unfold Agent.decide
  rw [h.controller]
  cases b.controller with
  | none =>
    have hreflex : DecidedAlike a b p p' states.length (a.actByReflex percept e, p.put a.handles states)
        (b.actByReflex percept e, p'.put b.handles states') := .reflex h ht percept e rfl hs
    rw [put_of_sees hv, put_of_sees hv'] at hreflex
    exact .ok hreflex
  | some stack =>
    simp only [isFinite_eq hv, isFinite_eq hv', CellState.Carries.all_isFinite hs]
    split
    · obtain ⟨out, next, next', hf, hf', hlen, hnext, hsame⟩ :=
        Stack.forward_alike CellState.Carries.stepsAlike CellState.Carries.refl stack env'.backend env'.guard
          hv hv' hs (b.controllerInput attended) env'.config.controller.outputMode b.outputSize
      simp only [he.config, he.backend, he.guard, h.outputSize, hinput, hf, hf']
      have hreflex : DecidedAlike a b p p' states.length (a.actByReflex percept e, p.put a.handles next)
          (b.actByReflex percept e, p'.put b.handles next') := .reflex h ht percept e hlen hnext
      rcases out with err | ⟨repairs, out⟩
      · cases err with
        | fault cause => exact .error _
        | _ => exact .ok hreflex
      · obtain rfl := hsame ⟨_, rfl⟩
        exact (h.choose ht _ _ _ hlen).bind fun _ _ _ _ hr => .ok hr
    · simp only [reset_eq hv, reset_eq hv']
      refine .ok (.reflex h ht percept e (by simp) ?_)
      exact List.forall₂_map_left_iff.mpr (List.forall₂_map_right_iff.mpr (hs.imp fun _ _ => .reset))

/-! ### Feeling and remembering -/

theorem Alike.feel (h : Alike a b) (c : Config.Temper) (s : Senses) (e : Encounter) (dt : Float32) :
    Alike (a.feel c s e dt) (b.feel c s e dt) := by
  simp only [Agent.feel, h.profile, h.affect]
  exact ⟨rfl, h.controller, h.outputSize, h.memory, rfl, h.levels, h.expectation, h.workingMemory,
    h.longTermContext, h.sampler, h.ticks, h.overBudget⟩

theorem feel_eq (a : Agent) (c : Config.Temper) (s : Senses) (e : Encounter) (dt : Float32) :
    ∃ affect, a.feel c s e dt = { a with affect } := ⟨_, rfl⟩

theorem LearnsAlike.feel (h : LearnsAlike a b) (c : Config.Temper) (s : Senses) (e : Encounter)
    (dt : Float32) : LearnsAlike (a.feel c s e dt) (b.feel c s e dt) := by
  unfold Agent.feel
  exact ⟨h.binding, h.consolidator, h.accumulator, h.writesSinceConsolidation, h.importanceSum⟩

theorem Alike.experience (h : Alike a b) (hd : a.decision.SameCore b.decision) (query : Vec) :
    a.experience query = b.experience query := by
  simp only [Agent.experience, h.memory, h.affect, hd.action, hd.confidence]

theorem sampleFisher_eq (a : Agent) (p : StatePools) (logitScale : Float32) :
    ∃ accumulator, a.sampleFisher p logitScale = { a with accumulator } := by
  unfold sampleFisher
  split
  · exact ⟨_, rfl⟩
  · exact ⟨a.accumulator, rfl⟩

/-- Learning from an experience changes nothing else than noting it does, but for what was learned. -/
theorem learn_eq_note (a : Agent) (p : StatePools) (c : Config) (taskId : Uuid) (memory : Memory)
    (experience : Vec) (importance : Float32) : ∃ consolidator accumulator writesSinceConsolidation importanceSum,
      a.learn p c taskId memory experience importance = { a.note memory experience importance with
        consolidator, accumulator, writesSinceConsolidation, importanceSum } := by
  obtain ⟨accumulator, hsample⟩ :=
    (a.note memory experience importance).sampleFisher_eq p c.controller.logitScale
  rw [learn_eq, hsample, consolidateInTime]
  split
  · exact ⟨_, _, _, _, rfl⟩
  · exact ⟨_, _, _, _, rfl⟩

theorem LearnsAlike.consolidateInTime (h : LearnsAlike a b) (hp : a.profile = b.profile)
    (hc : a.controller = b.controller) (ht : a.ticks = b.ticks) (c : Config.Consolidation)
    (taskId taskId' : Uuid) : LearnsAlike (a.consolidateInTime c taskId) (b.consolidateInTime c taskId') := by
  have hconsolidated : (a.consolidated c taskId).anonymous = (b.consolidated c taskId').anonymous := by
    rw [consolidated_anonymous, consolidated_anonymous]
    simp only [consolidated, hp, hc, ht, h.consolidator, h.accumulator, h.writesSinceConsolidation,
      h.importanceSum]
  unfold Agent.consolidateInTime
  rw [h.writesSinceConsolidation]
  split
  · exact ⟨h.binding, hconsolidated, by simp only [consolidate, h.accumulator], rfl, rfl⟩
  · exact h

theorem LearnsAlike.learn (h : LearnsAlike a b) (hab : Alike a b) {c : Config}
    (hg : a.policyGradient p c.controller.logitScale = b.policyGradient p' c.controller.logitScale)
    (taskId taskId' : Uuid) (memory : Memory) (experience : Vec) (importance : Float32) :
    LearnsAlike (a.learn p c taskId memory experience importance)
      (b.learn p' c taskId' memory experience importance) := by
  have hnote : (a.note memory experience importance).policyGradient p c.controller.logitScale =
      (b.note memory experience importance).policyGradient p' c.controller.logitScale := hg
  have hsample : LearnsAlike ((a.note memory experience importance).sampleFisher p c.controller.logitScale)
      ((b.note memory experience importance).sampleFisher p' c.controller.logitScale) := by
    unfold sampleFisher
    rw [hnote]
    split
    · exact ⟨h.binding, h.consolidator, by simp only [note, h.accumulator],
        by simp only [note, h.writesSinceConsolidation], by simp only [note, h.importanceSum]⟩
    · exact ⟨h.binding, h.consolidator, h.accumulator, by simp only [note, h.writesSinceConsolidation],
        by simp only [note, h.importanceSum]⟩
  obtain ⟨_, ha⟩ := (a.note memory experience importance).sampleFisher_eq p c.controller.logitScale
  obtain ⟨_, hb⟩ := (b.note memory experience importance).sampleFisher_eq p' c.controller.logitScale
  rw [learn_eq, learn_eq]
  rw [ha, hb] at hsample ⊢
  exact hsample.consolidateInTime hab.profile hab.controller hab.ticks c.consolidation taskId taskId'

/-- Two agents after remembering or not, one from each of two agents. -/
structure RememberedAlike (a b a' b' : Agent) : Prop where
  alike : Alike a' b'
  core : a'.decision.SameCore b'.decision
  memoryWritten : a'.decision.memoryWritten = b'.decision.memoryWritten
  gossip : a'.gossip = b'.gossip
  learned : LearnsAlike a b → LearnsAlike a' b'
  handles : a'.handles = a.handles
  handles' : b'.handles = b.handles

theorem RememberedAlike.forgo (h : Alike a b) (hd : a.decision.SameCore b.decision) :
    RememberedAlike a b a.forgo b.forgo where
  alike := ⟨h.profile, h.controller, h.outputSize, h.memory, h.affect, h.levels, h.expectation,
    h.workingMemory, h.longTermContext, h.sampler, h.ticks, h.overBudget⟩
  core := ⟨hd.action, hd.confidence, hd.intensity, hd.movement, hd.speed, hd.memoryWriteSignal,
    hd.learningRate, hd.degraded, hd.overBudget⟩
  memoryWritten := rfl
  gossip := rfl
  learned hl := ⟨hl.binding, hl.consolidator, hl.accumulator, hl.writesSinceConsolidation, hl.importanceSum⟩
  handles := rfl
  handles' := rfl

theorem RememberedAlike.learn (h : Alike a b) (hd : a.decision.SameCore b.decision) {c : Config}
    (hg : a.policyGradient p c.controller.logitScale = b.policyGradient p' c.controller.logitScale)
    (taskId taskId' : Uuid) (memory : Memory) (experience : Vec) (importance : Float32) :
    RememberedAlike a b (a.learn p c taskId memory experience importance)
      (b.learn p' c taskId' memory experience importance) := by
  have hlearned := fun hl : LearnsAlike a b => hl.learn h hg taskId taskId' memory experience importance
  obtain ⟨_, _, _, _, ha⟩ := a.learn_eq_note p c taskId memory experience importance
  obtain ⟨_, _, _, _, hb⟩ := b.learn_eq_note p' c taskId' memory experience importance
  rw [ha, hb] at hlearned ⊢
  refine ⟨?_, ?_, rfl, rfl, hlearned, rfl, rfl⟩
  · exact ⟨h.profile, h.controller, h.outputSize, rfl, h.affect, h.levels, h.expectation, h.workingMemory,
      h.longTermContext, h.sampler, h.ticks, h.overBudget⟩
  · exact ⟨hd.action, hd.confidence, hd.intensity, hd.movement, hd.speed, hd.memoryWriteSignal,
      hd.learningRate, hd.degraded, hd.overBudget⟩

theorem Alike.remember (h : Alike a b) (ht : a.attention = b.attention)
    (hd : a.decision.SameCore b.decision) {c : Config}
    (hg : a.decision.degraded = false →
      a.policyGradient p c.controller.logitScale = b.policyGradient p' c.controller.logitScale)
    (taskId taskId' : Uuid) (query : Vec) :
    Agree (RememberedAlike a b) (a.remember p c taskId query) (b.remember p' c taskId' query) := by
  unfold Agent.remember
  dsimp only
  rw [hd.degraded, hd.memoryWriteSignal]
  split
  · exact .ok (.forgo h hd)
  · next hskip =>
    have hdegraded : a.decision.degraded = false := by
      rw [hd.degraded]
      exact (Bool.or_eq_false_iff.mp (eq_false_of_ne_true hskip)).1
    rw [h.experience hd, h.memory, ht]
    refine (agree_eq (b.experience query)).bind fun experience _ _ _ heq => ?_
    cases heq
    refine (agree_eq (b.memory.write experience (b.decision.memoryWriteSignal * b.attention.novelty)).tolerate).bind
      fun stored _ _ _ heq => ?_
    cases heq
    split
    · exact .ok (.learn h hd (hg hdegraded) _ _ _ _ _)
    · exact .ok (.forgo h hd)

/-! ### Whole ticks -/

theorem Alike.express (h : Alike a b) (hd : a.decision.SameCore b.decision)
    (hm : a.decision.memoryWritten = b.decision.memoryWritten) (e : Encounter) :
    Alike (a.express e) (b.express e) ∧ (a.express e).decision = (b.express e).decision := by
  have hdecision : (a.express e).decision = (b.express e).decision := by
    simp only [Agent.express, Speech.compose, h.affect, h.levels, h.ticks, hm, hd.action, hd.confidence,
      hd.intensity, hd.movement, hd.speed, hd.memoryWriteSignal, hd.learningRate, hd.degraded, hd.overBudget]
  have hover : (a.express e).decision.overBudget = (b.express e).decision.overBudget := by rw [hdecision]
  refine ⟨?_, hdecision⟩
  unfold Agent.express at hover ⊢
  exact ⟨h.profile, h.controller, h.outputSize, h.memory, h.affect, h.levels, h.expectation,
    h.workingMemory, h.longTermContext, h.sampler, h.ticks, hover⟩

theorem LearnsAlike.express (h : LearnsAlike a b) (e : Encounter) :
    LearnsAlike (a.express e) (b.express e) := by
  unfold Agent.express
  exact ⟨h.binding, h.consolidator, h.accumulator, h.writesSinceConsolidation, h.importanceSum⟩

/-- Two agents after a tick, one from each of two agents, with the states that they put into their
pools. -/
structure TickedAlike (a b : Agent) (p p' : StatePools) (n : Nat) (r r' : Agent × StatePools) : Prop where
  alike : Alike r.1 r'.1
  decision : r.1.decision = r'.1.decision
  gossip : r.1.gossip = r'.1.gossip
  learned : LearnsAlike a b → LearnsAlike r.1 r'.1
  handles : r.1.handles = a.handles
  handles' : r'.1.handles = b.handles
  states : ∃ next next' : List CellState, next.length = n ∧ next'.length = n ∧
    List.Forall₂ CellState.Carries next next' ∧ r.2 = p.put a.handles next ∧ r'.2 = p'.put b.handles next'

/-- From deciding alike to the end of the tick. -/
theorem DecidedAlike.complete {a₂ b₂ : Agent} {q q' : StatePools}
    (h : DecidedAlike a b p p' states.length (a₂, q) (b₂, q')) (hv : Sees p.layers a.handles states)
    (hv' : Sees p'.layers b.handles states') (hn : states.length = states'.length) (c : Config) (s : Senses)
    (e : Encounter) (dt : Float32) (taskId taskId' : Uuid) (query : Vec) :
    Agree (fun a₃ b₃ => TickedAlike a b p p' states.length (a₃.express e, q) (b₃.express e, q'))
      ((a₂.feel c.temper s e dt).remember q c taskId query)
      ((b₂.feel c.temper s e dt).remember q' c taskId' query) := by
  obtain ⟨next, next', hlen, hlen', hnext, rfl, rfl, hsame⟩ := h.states
  have hfelt := h.alike.feel c.temper s e dt
  have hlearned := fun hl : LearnsAlike a₂ b₂ => hl.feel c.temper s e dt
  obtain ⟨affect, ha⟩ := a₂.feel_eq c.temper s e dt
  obtain ⟨affect', hb⟩ := b₂.feel_eq c.temper s e dt
  rw [ha, hb] at hfelt hlearned ⊢
  have hsees : Sees (p.put a.handles next).layers a₂.handles next := by
    rw [h.handles]
    exact sees_putAll hv hlen
  have hsees' : Sees (p'.put b.handles next').layers b₂.handles next' := by
    rw [h.handles']
    exact sees_putAll hv' (hlen'.trans hn)
  refine (hfelt.remember h.attention h.core (fun hd => ?_) taskId taskId' query).mono ?_
  · obtain ⟨rfl, hprob⟩ := hsame hd
    exact policyGradient_congr hfelt.controller hprob h.core.action hsees hsees' _
  · intro a₃ b₃ hrem
    obtain ⟨halike, hdecision⟩ := hrem.alike.express hrem.core hrem.memoryWritten e
    have hk := a₃.express_keeps e
    have hk' := b₃.express_keeps e
    refine ⟨halike, hdecision, ?_, fun hl => ?_, (hk.handles.trans hrem.handles).trans h.handles,
      (hk'.handles.trans hrem.handles').trans h.handles', next, next', hlen, hlen', hnext, rfl, rfl⟩
    · unfold Agent.express
      exact hrem.gossip
    · exact (hrem.learned (hlearned ((h.learned.symm.trans hl).trans h.learned'))).express e

/-- **Agents that are alike make the same decision**, and are alike again after it. -/
theorem Alike.tick (h : Alike a b) (he : env.Alike env') (hv : Sees p.layers a.handles states)
    (hv' : Sees p'.layers b.handles states') (hs : List.Forall₂ CellState.Carries states states')
    (s : Senses) (e : Encounter) (dt : Float32) :
    Agree (TickedAlike a b p p' states.length) (a.tick env p s e dt) (b.tick env' p' s e dt) := by
  obtain ⟨hattended, h₁, ht₁⟩ := h.attend env'.config.temper s e
  have hk := a.attend_keeps env'.config.temper s e
  have hk' := b.attend_keeps env'.config.temper s e
  have hl₁ : LearnsAlike a b → LearnsAlike (a.attend env'.config.temper s e).2
      (b.attend env'.config.temper s e).2 := by
    unfold Agent.attend
    exact fun hl => ⟨hl.binding, hl.consolidator, hl.accumulator, hl.writesSinceConsolidation,
      hl.importanceSum⟩
  unfold Agent.tick
  dsimp only
  rw [he.config, hattended]
  generalize a.attend env'.config.temper s e = r at *
  generalize b.attend env'.config.temper s e = r' at *
  obtain ⟨_, a₁⟩ := r
  obtain ⟨attended, b₁⟩ := r'
  dsimp only at *
  rw [h₁.query]
  refine (agree_eq (b₁.query attended)).bind fun query _ _ _ hq => ?_
  cases hq
  rw [h₁.recollect he]
  refine (agree_eq (b₁.recollect env' query)).bind fun longTermContext _ _ _ hcontext => ?_
  cases hcontext
  have h₂ : Alike { a₁ with longTermContext } { b₁ with longTermContext } :=
    ⟨h₁.profile, h₁.controller, h₁.outputSize, h₁.memory, h₁.affect, h₁.levels, h₁.expectation,
      h₁.workingMemory, rfl, h₁.sampler, h₁.ticks, h₁.overBudget⟩
  rw [← hk.handles] at hv
  rw [← hk'.handles] at hv'
  refine (h₂.decide ht₁ he hv hv' hs attended (s.percept e) e).bind ?_
  rintro ⟨a₂, q⟩ ⟨b₂, q'⟩ - - hdec
  refine (hdec.complete hv hv' hs.length_eq env'.config s e dt _ _ query).bind fun a₃ b₃ _ _ hend => .ok ?_
  refine ⟨hend.alike, hend.decision, hend.gossip, fun hl => hend.learned ?_, hend.handles.trans hk.handles,
    hend.handles'.trans hk'.handles, ?_⟩
  · have hl := hl₁ hl
    exact ⟨hl.binding, hl.consolidator, hl.accumulator, hl.writesSinceConsolidation, hl.importanceSum⟩
  · rw [← hk.handles, ← hk'.handles]
    exact hend.states

end Agent

end NpcMind
