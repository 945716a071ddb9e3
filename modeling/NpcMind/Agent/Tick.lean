import NpcMind.Agent.Basic
import NpcMind.Memory.Board
import NpcMind.Mind.Choice
import NpcMind.Mind.Reflex
import NpcMind.Mind.Speech

/-!
# Ticks

Every tick goes through six stages. The agent senses the scene, attends to what is new, recalls what is
alike, decides what to do, feels, and remembers the tick if it was worth it. An agent without a
controller, or one whose controller fails, decides by reflex, so a tick always has a decision.
-/

namespace NpcMind

/-- What an agent is lent for a tick. -/
structure Surroundings where
  config : Config
  backend : Backend
  guard : Guard
  /-- What other agents told. -/
  board : Option Board := none
  /-- The identity of a task, if one is stored. -/
  taskId : Uuid

namespace Agent

/-! ### Recall -/

/-- What an agent looks for in its memory: pooled channels and basic emotions. -/
def query (a : Agent) (attended : Vec) : Outcome Vec := do
  let size := vectorSize a.memory.width
  requireWithin sensedWidth size
  return poolChannels attended (Vec.zeros pooledWidth) ++ a.affect.values.extract 0 Emotion.basicCount ++
    Vec.zeros (size - sensedWidth)

/-- A weighted sum of the context and something recalled. -/
def mingle (kept taken : Float32) (context found : Vec) : Vec :=
  Array.zipWith (fun c x => kept * c + taken * x) context found

/-- The context with what the agent's own memory recalls. -/
def recallOwn (a : Agent) (env : Surroundings) (query context : Vec) : Outcome Vec := do
  let kept := env.config.temper.contextRetention
  match ← (a.memory.read env.backend query query.size).tolerate with
  | some found => return mingle kept (1 - kept) context found.content
  | none => return context

/-- The context with what other agents told, if that is like the query at all. -/
def recallGossip (env : Surroundings) (query context : Vec) : Outcome Vec := do
  let weight := env.config.limits.gossipWeight
  match env.board with
  | none => return context
  | some board =>
    match ← (board.read env.backend query query.size).tolerate with
    | some found => return if found.heads > 0 then mingle (1 - weight) weight context found.content else context
    | none => return context

/-- The long-term context after a recall. -/
def recollect (a : Agent) (env : Surroundings) (query : Vec) : Outcome Vec := do
  recallGossip env query (← a.recallOwn env query a.longTermContext)

/-! ### Decide -/

/-- What the controller takes in. -/
def controllerInput (a : Agent) (attended : Vec) : Vec :=
  attended ++ a.attention.workingMemory ++ a.longTermContext ++ a.affect.values

/-- The agent after deciding by reflex. -/
def actByReflex (a : Agent) (p : Percept) (e : Encounter) : Agent :=
  { a with decision := a.decision.byReflex p e }

/-- The agent after drawing an action from what its controller gives out. -/
def choose (a : Agent) (c : Config) (readout : Vec) (company : Bool) : Outcome Agent := do
  let probabilities ← Choice.distribution readout c.controller.logitScale a.profile.archetype company
  let signals ← Choice.signals readout
  let (draw, sampler) := a.sampler.nextUnit
  let action := Choice.sample probabilities draw
  let decision := { a.decision with
    action
    confidence := probabilities.getD action.index 0
    intensity := signals.intensity
    movement := signals.movement
    speed := signals.speed
    memoryWriteSignal := signals.memoryWrite
    learningRate := signals.learningRate
    degraded := false }
  return { a with probabilities, sampler, decision }

/-- The agent after deciding, with the states of its controller. States that are not finite are reset, and
the agent acts by reflex this time. -/
def decide (a : Agent) (env : Surroundings) (pools : StatePools) (attended : Vec) (p : Percept)
    (e : Encounter) : Outcome (Agent × StatePools) :=
  match a.controller with
  | none => return (a.actByReflex p e, pools)
  | some stack =>
    if pools.isFinite a.handles then
      match stack.forward env.backend env.guard pools a.handles (a.controllerInput attended)
          env.config.controller.outputMode a.outputSize with
      | (.error (.fault cause), _) => .error (.fault cause)
      | (.error _, pools) => return (a.actByReflex p e, pools)
      | (.ok (_, out), pools) => do
        let readout := out.extract (out.size - stack.finalSize) out.size
        return (← a.choose env.config readout (p.hasInterlocutor e), pools)
    else return (a.actByReflex p e, (pools.reset a.handles).2)

/-! ### Remember -/

/-- What is remembered of a tick: what was sensed, what was done, how the basic emotions changed and how
sure the agent was. -/
def experience (a : Agent) (query : Vec) : Outcome Vec := do
  requireWithin Config.experienceWidth a.memory.width
  let done := (Array.range Action.count).map fun i => if i = a.decision.action.index then 1 else 0
  let change := (Array.range Emotion.basicCount).map fun i =>
    a.affect.values.getD i 0 - query.getD (pooledWidth + i) 0
  return query.extract 0 sensedWidth ++ done ++ change ++ #[a.decision.confidence] ++
    Vec.zeros (a.memory.width - Config.experienceWidth)

/-- The derivatives of the logarithm of the latest action's probability by the controller's parameters. -/
def policyGradient (a : Agent) (pools : StatePools) (logitScale : Float32) :
    Outcome (List (Nat × Float32)) :=
  match a.controller with
  | none => .error (.config "agent has no controller")
  | some stack =>
    stack.finalGradient pools a.handles
      (Choice.policyGradient a.probabilities a.decision.action logitScale stack.finalSize)

/-- The agent with a sample of how much its parameters matter. -/
def sampleFisher (a : Agent) (pools : StatePools) (logitScale : Float32) : Agent :=
  match a.policyGradient pools logitScale with
  | .ok gradient => { a with accumulator := (a.accumulator.addAll gradient).endSample }
  | .error _ => a

/-- The consolidator with the present parameters as the task `taskId`, weighed by the samples so far.
Without a controller or samples there is no task, and a task that does not fit is left out. -/
def consolidated (a : Agent) (c : Config.Consolidation) (taskId : Uuid) : Consolidator :=
  match a.controller with
  | none => a.consolidator
  | some stack =>
    if a.accumulator.isEmpty then a.consolidator
    else
      let fisher := a.accumulator.finish c.minFisher c.maxDensity
      let importance := a.importanceSum / (max a.writesSinceConsolidation 1).toFloat32
      let name := a.profile.name ++ " #" ++ toString (a.consolidator.consolidations + 1)
      match a.consolidator.consolidate taskId name stack.flatten fisher importance a.ticks with
      | .ok (_, k) => k
      | .error _ => a.consolidator

/-- The agent after consolidating; the next samples start anew. -/
def consolidate (a : Agent) (c : Config.Consolidation) (taskId : Uuid) : Agent :=
  { a with
    consolidator := a.consolidated c taskId
    accumulator := a.accumulator.reset
    writesSinceConsolidation := 0
    importanceSum := 0 }

/-- The agent after a tick that is not remembered. -/
def forgo (a : Agent) : Agent :=
  { a with gossip := none, decision := { a.decision with memoryWritten := false } }

/-- The agent after an experience of that importance went into its memory. -/
def learn (a : Agent) (pools : StatePools) (c : Config) (taskId : Uuid) (memory : Memory) (experience : Vec)
    (importance : Float32) : Agent :=
  let a := { a with
    memory
    gossip := some (experience, importance)
    writesSinceConsolidation := a.writesSinceConsolidation + 1
    importanceSum := a.importanceSum + importance
    decision := { a.decision with memoryWritten := true } }
  let a := a.sampleFisher pools c.controller.logitScale
  let interval := c.consolidation.interval
  if interval > 0 && a.writesSinceConsolidation ≥ interval then a.consolidate c.consolidation taskId else a

/-- The agent after remembering the tick, if it decided on its own and the write signal is strong
enough. -/
def remember (a : Agent) (pools : StatePools) (c : Config) (taskId : Uuid) (query : Vec) : Outcome Agent := do
  let importance := a.decision.memoryWriteSignal
  if a.decision.degraded || !(importance > c.temper.writeThreshold) then return a.forgo
  let experience ← a.experience query
  match ← (a.memory.write experience (importance * a.attention.novelty)).tolerate with
  | some (some _, memory) => return a.learn pools c taskId memory experience importance
  | _ => return a.forgo

/-! ### All stages -/

/-- The agent with its decision completed by how it feels and what it says. -/
def express (a : Agent) (e : Encounter) : Agent :=
  let decision := { a.decision with
    dominantEmotion := a.affect.dominant.1
    emotionalTone := a.affect.dominant.2
    attention := a.attention.levels
    tick := a.ticks }
  { a with decision := Speech.compose decision a.affect e }

/-- The agent after sensing and attending, and the channels it attends to. -/
def attend (a : Agent) (c : Config.Temper) (s : Senses) (e : Encounter) : Vec × Agent :=
  let channels := s.channels e a.profile.archetype a.affect.values
  let attention := a.attention.update channels (s.percept e) e.inConversation a.profile.archetype c
  (attention.attend channels, { a with attention, ticks := a.ticks + 1 })

/-- The agent after feeling what happens for a time. -/
def feel (a : Agent) (c : Config.Temper) (s : Senses) (e : Encounter) (dt : Float32) : Agent :=
  let stimulus := Stimulus.ofScene s e (s.percept e).combat
  { a with affect := a.affect.feel a.profile.archetype stimulus c.affectRetention dt }

/-- The agent and the states of its controller after a tick. -/
def tick (a : Agent) (env : Surroundings) (pools : StatePools) (s : Senses) (e : Encounter)
    (dt : Float32) : Outcome (Agent × StatePools) := do
  let c := env.config
  let (attended, a) := a.attend c.temper s e
  let query ← a.query attended
  let longTermContext ← a.recollect env query
  let (a, pools) ← { a with longTermContext }.decide env pools attended (s.percept e) e
  let a ← (a.feel c.temper s e dt).remember pools c env.taskId query
  return (a.express e, pools)

end Agent

end NpcMind
