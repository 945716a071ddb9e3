import NpcMind.Consolidation.Accumulator
import NpcMind.Consolidation.Consolidator
import NpcMind.Decision
import NpcMind.Memory.Store
import NpcMind.Mind.Affect
import NpcMind.Mind.Attention
import NpcMind.Profile
import NpcMind.Recurrent.Stack

/-!
# Agents

An agent is a profile with everything that its experience changes: affect, attention, memory, what was
learned and consolidated, and the latest decision. The states of its controller are in pools that it
shares with other agents; the agent holds one handle for each layer.
-/

namespace NpcMind

/-- The number of pooled channels in an experience. -/
def pooledWidth : Nat := 16

/-- The part of an experience that a query is matched with: pooled channels and basic emotions. -/
def sensedWidth : Nat := pooledWidth + Emotion.basicCount

/-- The width of the controller's input: attended channels, working memory, long-term context and
affect. It is a 64-bit word. -/
def controllerInputWidth (memoryWidth : Nat) : Nat :=
  wrap (channelCount + workingMemorySize + memoryWidth + Emotion.count)

/-- A mind and what it has been through. -/
structure Agent where
  profile : Profile
  binding : Binding
  /-- The parameters that the agent decides with; without any it acts by reflex. -/
  controller : Option Stack
  /-- One state for each layer of the controller. -/
  handles : List Handle
  /-- What the agent was charged. -/
  budget : Budget
  /-- How many values the controller is expected to give out. -/
  outputSize : Nat
  memory : Memory
  affect : Affect
  attention : Attention
  /-- What the recalls of the past ticks add up to. -/
  longTermContext : Vec
  /-- The probabilities behind the latest decision that was not made by reflex. -/
  probabilities : Vec
  sampler : Sampler
  consolidator : Consolidator
  accumulator : Accumulator
  writesSinceConsolidation : UInt32 := 0
  /-- The importance of the experiences since the last consolidation. -/
  importanceSum : Float32 := 0
  /-- The experience of the latest tick with its importance, until it is told. -/
  gossip : Option (Vec × Float32) := none
  decision : Decision := {}
  ticks : UInt64 := 0

namespace Agent

/-- The identity of an agent. -/
def id (a : Agent) : Uuid := a.profile.id

/-- Charge an agent, its controller states apart, to a budget. -/
def charge (b : Budget) (c : Config) (outputSize finalSize : Nat) : Outcome Budget := do
  let b ← Memory.charge b c.memory
  let _ ← Memory.ofConfig c.memory
  let (attention, b) := Attention.charge b
  attention
  let width := c.memory.width
  let (rest, b) := b.takeVectors [channelCount, channelCount, controllerInputWidth width, outputSize,
    Action.count, finalSize, width, width, width, width, width]
  rest
  return b

/-- An agent that has been through nothing, with its controller states already drawn. -/
def assemble (p : Profile) (binding : Binding) (controller : Option Stack) (handles : List Handle)
    (b : Budget) (c : Config) : Outcome Agent := do
  let outputSize := (controller.map (·.outputSize c.controller.outputMode)).getD Config.readoutWidth
  let finalSize := (controller.map Stack.finalSize).getD Config.readoutWidth
  let parameterCount := (controller.map Stack.parameterCount).getD 0
  let budget ← charge b c outputSize finalSize
  return {
    profile := p
    binding
    controller
    handles
    budget
    outputSize
    memory := ← Memory.ofConfig c.memory
    affect := .initial p.archetype
    attention := .initial p.archetype
    longTermContext := Vec.zeros (vectorSize c.memory.width)
    probabilities := Vec.zeros Action.count
    sampler := .ofSeed p.id.seed
    consolidator := ← Consolidator.ofConfig parameterCount c.consolidation
    accumulator := .ofCount parameterCount }

/-- A new agent. One state is drawn for each layer of the controller; if the agent cannot be built they
are given back. -/
def spawn (p : Profile) (binding : Binding) (shared : Stack) (pools : StatePools) (c : Config) :
    Outcome Agent × StatePools :=
  let budget : Budget := { capacity := c.limits.arenaFloats }
  if binding = .detached then (assemble p binding none [] budget c, pools)
  else
    match pools.acquire shared.layers budget with
    | (.error e, pools, _) => (.error e, pools)
    | (.ok handles, pools, budget) =>
      match assemble p binding (some shared) handles budget c with
      | .ok a => (.ok a, pools)
      | .error e => (.error e, pools.release handles)

/-- The agent as it was spawned, but for what it learned and consolidated. -/
def reset (a : Agent) (pools : StatePools) : Outcome Agent × StatePools :=
  match pools.reset a.handles with
  | (.error e, pools) => (.error e, pools)
  | (.ok _, pools) =>
    (.ok { a with
      affect := a.affect.reset
      attention := .initial a.profile.archetype
      longTermContext := Vec.zeros a.longTermContext.size
      memory := a.memory.clear
      accumulator := a.accumulator.reset
      sampler := a.sampler.rewind
      writesSinceConsolidation := 0
      importanceSum := 0
      gossip := none
      decision := {}
      ticks := 0 }, pools)

/-- The agent with its relationship to the player shifted. -/
def shiftRelationship (a : Agent) (change : Float32) : Agent := { a with affect := a.affect.shift change }

end Agent

end NpcMind
