import NpcMind.Guard
import NpcMind.Kernel.Reduction

/-!
# Configuration

Everything about a society of agents that can be set, in six sections. Every value has a default.
-/

namespace NpcMind

/-- What a stack of recurrent layers gives out. -/
inductive OutputMode where
  /-- The last layer. -/
  | finalLayer
  /-- All layers, one after the other. -/
  | allLayers
  deriving DecidableEq, Repr, Inhabited

/-- Whose parameters an agent uses. -/
inductive Binding where
  /-- The parameters that all agents share. -/
  | shared
  /-- Parameters of its own. -/
  | perAgent
  /-- None: the agent acts by reflex. -/
  | detached
  deriving DecidableEq, Repr, Inhabited

/-- How alike a query and a memory are. -/
inductive Metric where
  | cosine
  | dot
  deriving DecidableEq, Repr, Inhabited

/-- Which task is given up when there is no room for a new one. -/
inductive PrunePolicy where
  | leastImportant
  | oldest
  deriving DecidableEq, Repr, Inhabited

/-- The name of an output mode. -/
def OutputMode.name : OutputMode → String
  | .finalLayer => "final_layer"
  | .allLayers => "all_layers"

/-- The name of a binding. -/
def Binding.name : Binding → String
  | .shared => "shared"
  | .perAgent => "per_agent"
  | .detached => "detached"

/-- The name of a metric. -/
def Metric.name : Metric → String
  | .cosine => "cosine"
  | .dot => "dot"

/-- The name of a prune policy. -/
def PrunePolicy.name : PrunePolicy → String
  | .leastImportant => "least_important"
  | .oldest => "oldest"

instance : Named OutputMode := ⟨[.finalLayer, .allLayers], OutputMode.name⟩

instance : Named Binding := ⟨[.shared, .perAgent, .detached], Binding.name⟩

instance : Named Metric := ⟨[.cosine, .dot], Metric.name⟩

instance : Named PrunePolicy := ⟨[.leastImportant, .oldest], PrunePolicy.name⟩

instance : Codec OutputMode := Named.codec

instance : Codec Binding := Named.codec

instance : Codec Metric := Named.codec

instance : Codec PrunePolicy := Named.codec

namespace Config

/-- How numbers are computed. -/
structure Numerics where
  backend : BackendChoice := .automatic
  guard : Guard := .sanitize
  deriving DecidableEq

/-- The recurrent controller. -/
structure Controller where
  /-- The width of each layer, the input side first. -/
  hiddenSizes : List Nat := [64]
  outputMode : OutputMode := .finalLayer
  /-- The factor from activations to the logits of actions. -/
  logitScale : Float32 := 4
  /-- The seed of the initial weights. -/
  initSeed : UInt64 := 0x5eed0fc027e7
  forgetBias : Float32 := 0.1
  /-- The binding of agents that are spawned without one. -/
  binding : Binding := .shared

/-- The associative memory. -/
structure Memory where
  slots : Nat := 128
  width : Nat := 64
  /-- How many of the best matches a read blends; with zero it finds nothing. -/
  readHeads : Nat := 4
  /-- The share of its usage that a slot keeps when another one is written. -/
  usageDecay : Float32 := 0.95
  /-- The usage above which a slot counts as worn. -/
  saturation : Float32 := 0.99
  metric : Metric := .cosine
  /-- How strongly a blend favours the better matches. -/
  sharpness : Float32 := 8

/-- The consolidation of what was learned. -/
structure Consolidation where
  maxTasks : Nat := 16
  lambda : Float32 := 400
  minLambda : Float32 := 1
  maxLambda : Float32 := 10000
  /-- The share of lambda that every adaptation keeps. -/
  lambdaDecay : Float32 := 0.99
  /-- Fisher values up to this are dropped. -/
  minFisher : Float32 := 1e-8
  /-- The largest share of parameters that a Fisher table keeps. -/
  maxDensity : Float32 := 0.1
  /-- Memory writes between two consolidations; with zero there are none. -/
  interval : UInt32 := 32
  prunePolicy : PrunePolicy := .leastImportant

/-- How an agent perceives, feels and learns. -/
structure Temper where
  /-- The write signal above which an experience is stored. -/
  writeThreshold : Float32 := 0.5
  /-- The time that a tick should take at most, in microseconds. -/
  tickBudget : UInt64 := 800
  /-- The share of attention that is kept from tick to tick. -/
  attentionDecay : Float32 := 0.95
  /-- How far from expectation news has to be. -/
  noveltyThreshold : Float32 := 0.1
  expectationRate : Float32 := 0.1
  workingMemoryRate : Float32 := 0.1
  /-- The share of the long-term context that a recall leaves. -/
  contextRetention : Float32 := 0.7
  /-- The share of the distance to the baseline affect that a second leaves. -/
  affectRetention : Float32 := 0.9
  /-- The step size of learning from rewards. -/
  adaptationRate : Float32 := 0.01

/-- The society as a whole. -/
structure Limits where
  maxAgents : Nat := 16
  /-- The budget of each agent. -/
  arenaFloats : Nat := 1048576
  /-- The slots of the gossip board; with zero there is none. -/
  gossipSlots : Nat := 0
  /-- The importance from which on an experience is worth telling. -/
  gossipThreshold : Float32 := 0.6
  /-- The weight of gossip in the long-term context. -/
  gossipWeight : Float32 := 0.1

end Config

/-- The configuration of a society. -/
structure Config where
  numerics : Config.Numerics := {}
  controller : Config.Controller := {}
  memory : Config.Memory := {}
  consolidation : Config.Consolidation := {}
  temper : Config.Temper := {}
  limits : Config.Limits := {}

namespace Config

instance : Inhabited Config := ⟨{}⟩

/-- The number of values that the controller's last layer has to give: one for each action and six
signals. -/
def readoutWidth : Nat := 27

/-- The length of an experience. -/
def experienceWidth : Nat := 54

/-- The most matches that a read can blend. -/
def maxReadHeads : Nat := 8

/-- A value between 0 and 1; not so a NaN. -/
def inUnit (x : Float32) : Bool := 0 ≤ x && x ≤ 1

/-- Refuse a configuration unless a condition holds. -/
def require (condition : Bool) (text : String) : Outcome Unit :=
  if condition then .ok () else .error (.config text)

/-- Refuse a configuration that no society can run with. -/
def validate (c : Config) : Outcome Unit := do
  let some last := c.controller.hiddenSizes.getLast?
    | throw (.config "controller needs at least one layer")
  require (!c.controller.hiddenSizes.contains 0) "controller layers must be non-empty"
  require (readoutWidth ≤ last)
    ("final controller layer has " ++ toString last ++ " units, needs at least " ++ toString readoutWidth)
  require (c.controller.logitScale > 0) "logit_scale must be positive"
  require (experienceWidth ≤ c.memory.width)
    ("memory width " ++ toString c.memory.width ++ " is narrower than an experience record (" ++
      toString experienceWidth ++ ")")
  require (c.memory.readHeads ≤ maxReadHeads)
    ("at most " ++ toString maxReadHeads ++ " read heads are supported")
  require (inUnit c.memory.usageDecay && inUnit c.memory.saturation)
    "memory decay and saturation must lie in [0, 1]"
  require (c.consolidation.maxDensity > 0 && c.consolidation.maxDensity ≤ 1)
    "max_density must lie in (0, 1]"
  require (!(c.consolidation.minLambda > c.consolidation.maxLambda || c.consolidation.minLambda < 0))
    "lambda range is inverted or negative"
  require (c.consolidation.maxTasks ≠ 0) "consolidator needs at least one task slot"
  require (inUnit c.temper.attentionDecay) "attention_decay must lie in [0, 1]"
  require (inUnit c.temper.expectationRate) "expectation_rate must lie in [0, 1]"
  require (inUnit c.temper.workingMemoryRate) "working_memory_rate must lie in [0, 1]"
  require (inUnit c.temper.contextRetention) "context_retention must lie in [0, 1]"
  require (inUnit c.temper.affectRetention) "affect_retention must lie in [0, 1]"
  require (c.limits.maxAgents ≠ 0) "system must allow at least one agent"

end Config

end NpcMind
