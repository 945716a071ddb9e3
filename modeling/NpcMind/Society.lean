import NpcMind.Agent.Learning
import NpcMind.Agent.Snapshot

/-!
# Societies

A society owns its agents and what they share: the initial parameters of the controller, the pools of
states, and the gossip board. Agents only read the board while they tick; what they have to tell is
published between their ticks.
-/

namespace NpcMind

/-- Agents and what they share. -/
structure Society where
  config : Config
  /-- The parameters of every agent that has none of its own. -/
  controller : Stack
  pools : StatePools
  agents : SlotPool Agent
  /-- Where each agent is. -/
  index : List (Uuid × Handle) := []
  board : Option Board := none
  /-- The order of summation that the society computes with. -/
  backend : Backend

/-- What one agent meets in a batch of ticks. -/
structure Frame where
  id : Uuid
  senses : Senses
  encounter : Encounter
  /-- The identity of a task, if the agent stores one. -/
  taskId : Uuid

namespace Society

/-- The board of a configuration that asks for one. -/
def boardOf (c : Config) : Outcome (Option Board) := do
  if c.limits.gossipSlots > 0 then
    return some (← Board.ofConfig { c.memory with slots := c.limits.gossipSlots } c.limits.gossipThreshold)
  else return none

/-- A society without agents, on a machine that the backend `detected` suits. -/
def ofConfig (c : Config) (detected : Backend) : Outcome Society := do
  c.validate
  let controller ← Stack.ofConfig (controllerInputWidth c.memory.width) c.controller
  let pools ← StatePools.allocate controller.layers.length c.limits.maxAgents
  let board ← boardOf c
  return {
    config := c
    controller
    pools
    agents := .ofCapacity "agent pool" c.limits.maxAgents
    board
    backend := c.numerics.backend.resolve detected }

/-- The number of agents. -/
def size (w : Society) : Nat := w.agents.size

/-- How many agents there is room for. -/
def capacity (w : Society) : Nat := w.agents.capacity

/-- The identities of the agents. -/
def ids (w : Society) : List Uuid := w.index.map Prod.fst

/-- There is an agent of that identity. -/
def contains (w : Society) (id : Uuid) : Bool := (w.index.lookup id).isSome

/-- Where an agent is. -/
def handle (w : Society) (id : Uuid) : Outcome Handle :=
  match w.index.lookup id with
  | some h => .ok h
  | none => .error (.unknownAgent id)

/-- The agent of that identity. -/
def agent (w : Society) (id : Uuid) : Outcome Agent := do w.agents.get (← w.handle id)

/-- The handle of an agent, and the agent. -/
def locate (w : Society) (id : Uuid) : Outcome (Handle × Agent) := do
  let h ← w.handle id
  return (h, ← w.agents.get h)

/-- Add an agent with the given binding. -/
def spawnWith (w : Society) (p : Profile) (binding : Binding) : Outcome Uuid × Society :=
  if w.contains p.id then (.error (.duplicateAgent p.id), w)
  else if w.agents.isFull then (.error (.exhausted w.agents.name w.capacity), w)
  else
    match Agent.spawn p binding w.controller w.pools w.config with
    | (.error e, pools) => (.error e, { w with pools })
    | (.ok a, pools) =>
      match w.agents.insert a with
      | .error e => (.error e, { w with pools })
      | .ok (h, agents) => (.ok p.id, { w with pools, agents, index := (p.id, h) :: w.index })

/-- Add an agent with the configured binding. -/
def spawn (w : Society) (p : Profile) : Outcome Uuid × Society := w.spawnWith p w.config.controller.binding

/-- Remove an agent, and give back the states of its controller. -/
def despawn (w : Society) (id : Uuid) : Outcome Unit × Society :=
  match w.handle id with
  | .error e => (.error e, w)
  | .ok h =>
    let index := w.index.filter fun entry => entry.1 != id
    match w.agents.remove h with
    | .error e => (.error e, { w with index })
    | .ok (a, agents) => (.ok (), { w with index, agents, pools := w.pools.release a.handles })

/-- What an agent is lent for a tick in which a task gets the identity `taskId`. -/
def surroundings (w : Society) (taskId : Uuid) : Surroundings where
  config := w.config
  backend := w.backend
  guard := w.config.numerics.guard
  board := w.board
  taskId

/-- The board after an agent told its latest experience, and the agent. -/
def tell (board : Option Board) (a : Agent) : Option Board × Agent :=
  match board, a.gossip with
  | some b, some (experience, importance) =>
    match b.publish experience importance with
    | .ok (_, b) => (some b, { a with gossip := none })
    | .error _ => (some b, { a with gossip := none })
  | board, _ => (board, { a with gossip := none })

/-- One tick of one agent, after which it tells what it has to tell. A task that it stores gets the
identity `taskId`. -/
def tick (w : Society) (id : Uuid) (s : Senses) (e : Encounter) (dt : Float32) (taskId : Uuid) :
    Outcome Decision × Society :=
  match w.locate id with
  | .error err => (.error err, w)
  | .ok (h, a) =>
    match a.tick (w.surroundings taskId) w.pools s e dt with
    | .error err => (.error err, w)
    | .ok (a, pools) =>
      match tell w.board a with
      | (board, a) => (.ok a.decision, { w with pools, board, agents := w.agents.set h a })

/-- The ticks of a batch in turn, up to the first failure. -/
def tickAll (w : Society) (dt : Float32) : List Frame → Outcome Unit × Society
  | [] => (.ok (), w)
  | f :: rest =>
    match w.tick f.id f.senses f.encounter dt f.taskId with
    | (.ok _, w) => w.tickAll dt rest
    | (.error e, w) => (.error e, w)

/-- The ticks of a batch in turn, if all agents are there. -/
def update (w : Society) (frames : List Frame) (dt : Float32) : Outcome Unit × Society :=
  match frames.forM fun f => (do let _ ← w.handle f.id : Outcome Unit) with
  | .error e => (.error e, w)
  | .ok _ => w.tickAll dt frames

/-- An agent as it was spawned, but for what it learned and consolidated. The board is left alone. -/
def reset (w : Society) (id : Uuid) : Outcome Unit × Society :=
  match w.locate id with
  | .error e => (.error e, w)
  | .ok (h, a) =>
    match a.reset w.pools with
    | (.error e, pools) => (.error e, { w with pools })
    | (.ok a, pools) => (.ok (), { w with pools, agents := w.agents.set h a })

/-- Reward or punish an agent's latest decision. -/
def reinforce (w : Society) (id : Uuid) (reward : Float32) : Outcome (PenaltyReport Float32) × Society :=
  match w.locate id with
  | .error e => (.error e, w)
  | .ok (h, a) =>
    match a.reinforce w.pools w.config reward with
    | .error e => (.error e, w)
    | .ok (report, a) => (.ok report, { w with agents := w.agents.set h a })

/-- The penalty on an agent's parameters. -/
def penalty (w : Society) (id : Uuid) : Outcome (PenaltyReport Float32) := do (← w.agent id).penalty

/-- Shift an agent's relationship to the player, and give its new level. -/
def shiftRelationship (w : Society) (id : Uuid) (change : Float32) : Outcome Float32 × Society :=
  match w.locate id with
  | .error e => (.error e, w)
  | .ok (h, a) =>
    let a := a.shiftRelationship change
    (.ok a.affect.level, { w with agents := w.agents.set h a })

/-- Empty the board. -/
def clearGossip (w : Society) : Society := { w with board := w.board.map Board.clear }

/-- What is saved of the board. -/
def gossipRecord (w : Society) : Outcome (Option MemoryRecord) := w.board.mapM fun b => b.memory.record

/-- The board with what was saved put back. -/
def restoreGossip (w : Society) (r : MemoryRecord) : Outcome Society := do
  match w.board with
  | none => throw (.config "gossip board is disabled")
  | some b => return { w with board := some (← b.restore r) }

/-- What is saved of an agent. -/
def save (w : Society) (id : Uuid) : Outcome Snapshot := do (← w.agent id).snapshot w.pools

/-- Resume the agent of that identity from a snapshot. -/
def restore (w : Society) (id : Uuid) (s : Snapshot) : Outcome Unit × Society :=
  match w.locate id with
  | .error e => (.error e, w)
  | .ok (h, a) =>
    match a.restore s w.pools with
    | (out, a, pools) => (out, { w with pools, agents := w.agents.set h a })

/-- Add the agent of a snapshot. Nobody is added if any part of the snapshot does not fit. -/
def load (w : Society) (s : Snapshot) : Outcome Uuid × Society :=
  match s.checkCompatible w.controller with
  | .error e => (.error e, w)
  | .ok _ =>
    match w.spawnWith s.profile s.binding with
    | (.error e, w) => (.error e, w)
    | (.ok id, w) =>
      match w.restore id s with
      | (.ok _, w) => (.ok id, w)
      | (.error e, w) =>
        match w.despawn id with
        | (.ok _, w) => (.error e, w)
        | (.error e, w) => (.error e, w)

end Society

end NpcMind
