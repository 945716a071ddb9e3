import NpcMind.Config.Basic

/-!
# Configurations as documents

A configuration is a record of six sections. Every section lists its settings once, for all formats
that it is written in. When it is read, whatever is missing takes its default.
-/

namespace NpcMind

/-- A single setting. -/
inductive Setting where
  | count (n : Nat)
  | counts (ns : List Nat)
  | single (x : Float32)
  | word (s : String)

namespace Setting

/-- A setting as a document. -/
def toDocument : Setting → Document
  | .count n => Codec.encode n
  | .counts ns => Codec.encode ns
  | .single x => Codec.encode x
  | .word s => .text s

/-- Two settings are equal; a NaN equals nothing. -/
def equal : Setting → Setting → Bool
  | .count m, .count n => m = n
  | .counts ms, .counts ns => ms = ns
  | .single x, .single y => x == y
  | .word s, .word t => s = t
  | _, _ => false

end Setting

namespace Config

/-- The settings of how numbers are computed. -/
def Numerics.settings (c : Numerics) : List (String × Setting) := [
  ("backend", .word c.backend.name),
  ("numeric_policy", .word c.guard.name)]

/-- The settings of the controller. -/
def Controller.settings (c : Controller) : List (String × Setting) := [
  ("hidden_sizes", .counts c.hiddenSizes),
  ("output_mode", .word c.outputMode.name),
  ("logit_scale", .single c.logitScale),
  ("init_seed", .count c.initSeed.toNat),
  ("forget_bias", .single c.forgetBias),
  ("binding", .word c.binding.name)]

/-- The settings of the memory. -/
def Memory.settings (c : Memory) : List (String × Setting) := [
  ("slots", .count c.slots),
  ("width", .count c.width),
  ("read_heads", .count c.readHeads),
  ("usage_decay", .single c.usageDecay),
  ("saturation", .single c.saturation),
  ("metric", .word c.metric.name),
  ("sharpness", .single c.sharpness)]

/-- The settings of consolidation. -/
def Consolidation.settings (c : Consolidation) : List (String × Setting) := [
  ("max_tasks", .count c.maxTasks),
  ("lambda", .single c.lambda),
  ("min_lambda", .single c.minLambda),
  ("max_lambda", .single c.maxLambda),
  ("lambda_decay", .single c.lambdaDecay),
  ("min_fisher", .single c.minFisher),
  ("max_density", .single c.maxDensity),
  ("interval", .count c.interval.toNat),
  ("prune_policy", .word c.prunePolicy.name)]

/-- The settings of an agent. -/
def Temper.settings (c : Temper) : List (String × Setting) := [
  ("write_threshold", .single c.writeThreshold),
  ("tick_budget_us", .count c.tickBudget.toNat),
  ("attention_decay", .single c.attentionDecay),
  ("novelty_threshold", .single c.noveltyThreshold),
  ("expectation_rate", .single c.expectationRate),
  ("working_memory_rate", .single c.workingMemoryRate),
  ("context_retention", .single c.contextRetention),
  ("affect_retention", .single c.affectRetention),
  ("adaptation_rate", .single c.adaptationRate)]

/-- The settings of the society. -/
def Limits.settings (c : Limits) : List (String × Setting) := [
  ("max_agents", .count c.maxAgents),
  ("arena_floats", .count c.arenaFloats),
  ("gossip_slots", .count c.gossipSlots),
  ("gossip_threshold", .single c.gossipThreshold),
  ("gossip_weight", .single c.gossipWeight)]

/-- The sections of a configuration with their settings. -/
def sections (c : Config) : List (String × List (String × Setting)) := [
  ("kernels", c.numerics.settings),
  ("controller", c.controller.settings),
  ("memory", c.memory.settings),
  ("consolidation", c.consolidation.settings),
  ("agent", c.temper.settings),
  ("system", c.limits.settings)]

/-- Settings as a record. -/
def recordOf (settings : List (String × Setting)) : Document :=
  .record (settings.map fun (name, s) => (name, s.toDocument))

/-- The names of settings. -/
def namesOf (settings : List (String × Setting)) : List String := settings.map Prod.fst

/-- Two configurations agree in every setting. -/
def equal (c d : Config) : Bool :=
  let flat (c : Config) : List Setting := (c.sections.map Prod.snd).flatten.map Prod.snd
  (List.zipWith Setting.equal (flat c) (flat d)).all id

instance : Codec Numerics where
  encode c := recordOf c.settings
  decode? d := do
    let c : Numerics := {}
    let r ← d.someEntries? (namesOf c.settings)
    return {
      backend := ← r.getD "backend" c.backend
      guard := ← r.getD "numeric_policy" c.guard }

instance : Codec Controller where
  encode c := recordOf c.settings
  decode? d := do
    let c : Controller := {}
    let r ← d.someEntries? (namesOf c.settings)
    return {
      hiddenSizes := ← r.getD "hidden_sizes" c.hiddenSizes
      outputMode := ← r.getD "output_mode" c.outputMode
      logitScale := ← r.getD "logit_scale" c.logitScale
      initSeed := ← r.getD "init_seed" c.initSeed
      forgetBias := ← r.getD "forget_bias" c.forgetBias
      binding := ← r.getD "binding" c.binding }

instance : Codec Memory where
  encode c := recordOf c.settings
  decode? d := do
    let c : Memory := {}
    let r ← d.someEntries? (namesOf c.settings)
    return {
      slots := ← r.getD "slots" c.slots
      width := ← r.getD "width" c.width
      readHeads := ← r.getD "read_heads" c.readHeads
      usageDecay := ← r.getD "usage_decay" c.usageDecay
      saturation := ← r.getD "saturation" c.saturation
      metric := ← r.getD "metric" c.metric
      sharpness := ← r.getD "sharpness" c.sharpness }

instance : Codec Consolidation where
  encode c := recordOf c.settings
  decode? d := do
    let c : Consolidation := {}
    let r ← d.someEntries? (namesOf c.settings)
    return {
      maxTasks := ← r.getD "max_tasks" c.maxTasks
      lambda := ← r.getD "lambda" c.lambda
      minLambda := ← r.getD "min_lambda" c.minLambda
      maxLambda := ← r.getD "max_lambda" c.maxLambda
      lambdaDecay := ← r.getD "lambda_decay" c.lambdaDecay
      minFisher := ← r.getD "min_fisher" c.minFisher
      maxDensity := ← r.getD "max_density" c.maxDensity
      interval := ← r.getD "interval" c.interval
      prunePolicy := ← r.getD "prune_policy" c.prunePolicy }

instance : Codec Temper where
  encode c := recordOf c.settings
  decode? d := do
    let c : Temper := {}
    let r ← d.someEntries? (namesOf c.settings)
    return {
      writeThreshold := ← r.getD "write_threshold" c.writeThreshold
      tickBudget := ← r.getD "tick_budget_us" c.tickBudget
      attentionDecay := ← r.getD "attention_decay" c.attentionDecay
      noveltyThreshold := ← r.getD "novelty_threshold" c.noveltyThreshold
      expectationRate := ← r.getD "expectation_rate" c.expectationRate
      workingMemoryRate := ← r.getD "working_memory_rate" c.workingMemoryRate
      contextRetention := ← r.getD "context_retention" c.contextRetention
      affectRetention := ← r.getD "affect_retention" c.affectRetention
      adaptationRate := ← r.getD "adaptation_rate" c.adaptationRate }

instance : Codec Limits where
  encode c := recordOf c.settings
  decode? d := do
    let c : Limits := {}
    let r ← d.someEntries? (namesOf c.settings)
    return {
      maxAgents := ← r.getD "max_agents" c.maxAgents
      arenaFloats := ← r.getD "arena_floats" c.arenaFloats
      gossipSlots := ← r.getD "gossip_slots" c.gossipSlots
      gossipThreshold := ← r.getD "gossip_threshold" c.gossipThreshold
      gossipWeight := ← r.getD "gossip_weight" c.gossipWeight }

instance : Codec Config where
  encode c := .record (c.sections.map fun (name, settings) => (name, recordOf settings))
  decode? d := do
    let r ← d.someEntries? ["kernels", "controller", "memory", "consolidation", "agent", "system"]
    return {
      numerics := ← r.getD "kernels" {}
      controller := ← r.getD "controller" {}
      memory := ← r.getD "memory" {}
      consolidation := ← r.getD "consolidation" {}
      temper := ← r.getD "agent" {}
      limits := ← r.getD "system" {} }

end Config

end NpcMind
