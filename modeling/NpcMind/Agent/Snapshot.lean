import NpcMind.Agent.Basic
import NpcMind.Config.Codec
import NpcMind.Document.Json.Printer
import NpcMind.Document.Json.Reader

/-!
# Snapshots

A snapshot holds what is needed to resume an agent where it stopped. Parameters are part of it only if
the agent has its own.
-/

namespace NpcMind

/-- What is saved of an agent. -/
structure Snapshot where
  version : UInt32
  profile : Profile
  binding : Binding
  /-- The width of the controller's input, zero without a controller. -/
  inputSize : Nat
  hiddenSizes : List Nat
  parameterCount : Nat
  parameters : Option Vec
  states : List StateRecord
  affect : Affect
  attention : Vec
  expectation : Vec
  workingMemory : Vec
  longTermContext : Vec
  sampler : Sampler
  ticks : UInt64
  memory : MemoryRecord
  consolidator : ConsolidatorRecord
  accumulator : AccumulatorRecord
  writesSinceConsolidation : UInt32
  importanceSum : Float32

namespace Snapshot

/-- The version of snapshots that are written and read. -/
def currentVersion : UInt32 := 2

instance : Codec Snapshot where
  encode s := .record [
    ("version", Codec.encode s.version),
    ("profile", Codec.encode s.profile),
    ("binding", Codec.encode s.binding),
    ("input_size", Codec.encode s.inputSize),
    ("hidden_sizes", Codec.encode s.hiddenSizes),
    ("parameter_count", Codec.encode s.parameterCount),
    ("parameters", Codec.encode s.parameters),
    ("states", Codec.encode s.states),
    ("affect", Codec.encode s.affect),
    ("attention", Codec.encode s.attention),
    ("expectation", Codec.encode s.expectation),
    ("working_memory", Codec.encode s.workingMemory),
    ("long_term_context", Codec.encode s.longTermContext),
    ("sampler", Codec.encode s.sampler),
    ("ticks", Codec.encode s.ticks),
    ("memory", Codec.encode s.memory),
    ("consolidator", Codec.encode s.consolidator),
    ("accumulator", Codec.encode s.accumulator),
    ("writes_since_consolidation", Codec.encode s.writesSinceConsolidation),
    ("importance_sum", Codec.encode s.importanceSum)]
  decode? d := do
    let r ← d.entries? ["version", "profile", "binding", "input_size", "hidden_sizes",
      "parameter_count", "parameters", "states", "affect", "attention", "expectation",
      "working_memory", "long_term_context", "sampler", "ticks", "memory", "consolidator",
      "accumulator", "writes_since_consolidation", "importance_sum"]
    return {
      version := ← r.get "version"
      profile := ← r.get "profile"
      binding := ← r.get "binding"
      inputSize := ← r.get "input_size"
      hiddenSizes := ← r.get "hidden_sizes"
      parameterCount := ← r.get "parameter_count"
      parameters := ← r.get "parameters"
      states := ← r.get "states"
      affect := ← r.get "affect"
      attention := ← r.get "attention"
      expectation := ← r.get "expectation"
      workingMemory := ← r.get "working_memory"
      longTermContext := ← r.get "long_term_context"
      sampler := ← r.get "sampler"
      ticks := ← r.get "ticks"
      memory := ← r.get "memory"
      consolidator := ← r.get "consolidator"
      accumulator := ← r.get "accumulator"
      writesSinceConsolidation := ← r.get "writes_since_consolidation"
      importanceSum := ← r.get "importance_sum" }

/-- Refuse any other version than the current one. -/
def checkVersion (found : UInt32) : Outcome Unit :=
  if found = currentVersion then .ok () else .error (.version currentVersion.toNat found.toNat)

/-- A document that has to be there and readable. -/
def readable {α : Type} : Option α → Outcome α
  | some a => .ok a
  | none => .error .unreadableDocument

/-- The snapshot that a document describes. The version is looked at before anything else. -/
def ofDocument (d : Document) : Outcome Snapshot := do
  let version ← readable (do (← d.entries? ["version"]).get "version")
  checkVersion version
  readable (Codec.decode? d)

/-- The snapshot as a text. -/
def toJson (s : Snapshot) : String := (Codec.encode s).toJson

/-- The snapshot that a text describes. -/
def ofJson (text : String) : Outcome Snapshot := do ofDocument (← readable (Document.ofLenientJson? text))

/-- A list of widths, as messages show it. -/
def showSizes (sizes : List Nat) : String := "[" ++ ", ".intercalate (sizes.map toString) ++ "]"

/-- The number of parameters that a snapshot is about: of those it carries, or else the number it
states. -/
def effectiveCount (s : Snapshot) : Nat := (s.parameters.map Array.size).getD s.parameterCount

/-- Refuse a snapshot that was taken with a controller of another shape. -/
def checkCompatible (s : Snapshot) (stack : Stack) : Outcome Unit := do
  checkVersion s.version
  if s.binding = .detached then return ()
  let sizes := stack.hiddenSizes
  if s.inputSize ≠ stack.inputSize || s.hiddenSizes ≠ sizes then
    throw (.config ("snapshot controller " ++ toString s.inputSize ++ "→" ++ showSizes s.hiddenSizes ++
      " does not match " ++ toString stack.inputSize ++ "→" ++ showSizes sizes))
  if s.effectiveCount ≠ stack.parameterCount then
    throw (.parameterCount stack.parameterCount s.effectiveCount)
  if s.states.length ≠ sizes.length then
    throw (.config ("snapshot has " ++ toString s.states.length ++ " recurrent states for " ++
      toString sizes.length ++ " layers"))

end Snapshot

namespace Agent

/-- What is saved of an agent. -/
def snapshot (a : Agent) (pools : StatePools) : Outcome Snapshot := do
  return {
    version := Snapshot.currentVersion
    profile := a.profile
    binding := a.binding
    inputSize := (a.controller.map Stack.inputSize).getD 0
    hiddenSizes := (a.controller.map Stack.hiddenSizes).getD []
    parameterCount := a.consolidator.parameterCount
    parameters := if a.binding = .perAgent then a.controller.map Stack.flatten else none
    states := ← pools.records a.handles
    affect := a.affect
    attention := a.attention.levels
    expectation := a.attention.expectation
    workingMemory := a.attention.workingMemory
    longTermContext := a.longTermContext
    sampler := a.sampler
    ticks := a.ticks
    memory := ← a.memory.record
    consolidator := a.consolidator.toRecord
    accumulator := a.accumulator.toRecord
    writesSinceConsolidation := a.writesSinceConsolidation
    importanceSum := a.importanceSum }

/-- Refuse a snapshot whose vectors have the wrong length. -/
def checkLengths (a : Agent) (s : Snapshot) : Outcome Unit := do
  expectSize "affect" Emotion.count s.affect.values.size
  expectSize "affect baseline" Emotion.count s.affect.baseline.size
  expectSize "attention" channelCount s.attention.size
  expectSize "expectation" channelCount s.expectation.size
  expectSize "working memory" workingMemorySize s.workingMemory.size
  expectSize "long-term context" a.memory.width s.longTermContext.size

/-- The agent with the parameters of a snapshot, if it carries any. -/
def takeParameters (a : Agent) (s : Snapshot) : Outcome Agent := do
  match s.parameters with
  | none => return a
  | some values =>
    match a.controller with
    | none => throw (.config "snapshot carries parameters for a detached agent")
    | some stack => return { a with controller := some (← stack.load values) }

/-- The agent with everything of a snapshot that always fits. -/
def takeRest (a : Agent) (s : Snapshot) : Agent :=
  { a with
    attention := { a.attention with
      levels := s.attention, expectation := s.expectation, workingMemory := s.workingMemory }
    longTermContext := s.longTermContext
    affect := s.affect
    sampler := s.sampler
    ticks := s.ticks
    writesSinceConsolidation := s.writesSinceConsolidation
    importanceSum := s.importanceSum
    gossip := none
    decision := { tick := s.ticks } }

/-- The agent with a part of it put back by a fallible step; unchanged if the step fails. -/
def keepUnless {α : Type} (a : Agent) (part : Outcome α) (put : α → Agent) : Outcome Unit × Agent :=
  match part with
  | .ok x => (.ok (), put x)
  | .error e => (.error e, a)

/-- One step after another, up to the first that fails. -/
def andThen (first : Outcome Unit × Agent) (next : Agent → Outcome Unit × Agent) :
    Outcome Unit × Agent :=
  match first with
  | (.ok _, a) => next a
  | (.error e, a) => (.error e, a)

/-- The agent with the records of a snapshot put back: memory, tasks and samples, up to the first that
does not fit, and then the rest. -/
def takeRecords (a : Agent) (s : Snapshot) : Outcome Unit × Agent :=
  let memory := a.keepUnless (a.memory.restore s.memory) fun memory => { a with memory }
  let tasks := andThen memory fun a =>
    a.keepUnless (a.consolidator.restore s.consolidator) fun consolidator => { a with consolidator }
  let samples := andThen tasks fun a =>
    a.keepUnless (a.accumulator.restore s.accumulator) fun accumulator => { a with accumulator }
  andThen samples fun a => (.ok (), a.takeRest s)

/-- The agent resumed from a snapshot. What was put back before a failure stays. -/
def restore (a : Agent) (s : Snapshot) (pools : StatePools) : Outcome Unit × Agent × StatePools :=
  match a.checkLengths s >>= fun _ => a.takeParameters s with
  | .error e => (.error e, a, pools)
  | .ok a =>
    match pools.restore a.handles s.states with
    | (.error e, pools) => (.error e, a, pools)
    | (.ok _, pools) =>
      match a.takeRecords s with
      | (out, a) => (out, a, pools)

end Agent

end NpcMind
