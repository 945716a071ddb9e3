import NpcMind.Console.Argument
import NpcMind.Console.View
import NpcMind.Society

/-!
# Figures

What is shown of the parts of a mind.
-/

namespace NpcMind

instance : View Archetype where
  view a := .record [
    ("display", view a.name),
    ("default", view (a == default : Bool)),
    ("position", view (Archetype.all.idxOf a)),
    ("baseline", view a.baseline),
    ("focus", view (a.focus.1.name, a.focus.2)),
    ("region_bias", view (Region.all.map a.regionBias)),
    ("action_biases", view (a.actionBiases.map fun (x, f) => (x.name, f))),
    ("relishes_combat", view a.relishesCombat)]

instance : View Action where
  view a := .record [
    ("name", view a.name),
    ("index", view a.index),
    ("category", view a.group.name),
    ("needs_interlocutor", view a.needsInterlocutor),
    ("default", view (a == default : Bool))]

instance : View Emotion where
  view e := .record [
    ("name", view e.name),
    ("index", view e.index),
    ("range", view e.range.name),
    ("basic", view e.isBasic),
    ("decays", view e.decays),
    ("default", view (e == default : Bool)),
    ("baselines", view (Archetype.all.map fun a => a.baseline.getD e.index 0))]

/-- What is shown of a range and a value. -/
def AffectRange.figures (r : AffectRange) (x : Float32) : Document :=
  .record [("bounds", view r.bounds), ("clamp", view (r.clamp x)), ("contains", view (r.contains x))]

instance : View Uuid where
  view u := .record [
    ("display", view u.render),
    ("seed", view u.seed),
    ("nil", view (u == Uuid.nil : Bool))]

instance : View Opinion where
  view o := .record [
    ("name", view o.name),
    ("display", view o.word),
    ("line", view o.line),
    ("default", view (o == default : Bool))]

instance : View Region where
  view g := .record [("name", view g.name), ("start", view g.start), ("end", view g.stop)]

/-- What is shown of a scene. -/
def Encounter.figures (e : Encounter) (s : Senses) : Document := .record [
  ("non_finite", view s.hasNonFinite),
  ("distance", view s.playerDistance),
  ("combat_sounds", view s.combatSounds),
  ("visual_sum", view (Vec.total s.vision.toArray)),
  ("audio", view s.audio.toArray),
  ("tone", view e.tone),
  ("threat", view e.threat),
  ("phrase", view e.phrase.text),
  ("phrase_bytes", view e.phrase.text.utf8ByteSize),
  ("positive", view e.isPositive),
  ("negative", view e.isNegative)]

/-- What is shown of a sampler after a draw. -/
def Sampler.figures (s : Sampler) (out : Document) : Document :=
  .record [("out", out), ("seed", view s.seed), ("counter", view s.counter)]

/-- The word for a kind of error. -/
def Error.kind : Error → String
  | .config _ => "Config"
  | .dimension .. => "DimensionMismatch"
  | .exhausted .. => "PoolExhausted"
  | .staleHandle _ => "StaleHandle"
  | .unknownAgent _ => "UnknownAgent"
  | .duplicateAgent _ => "DuplicateAgent"
  | .fisherIndex .. => "FisherIndexOutOfRange"
  | .version .. => "VersionMismatch"
  | .parameterCount .. => "ParameterCountMismatch"
  | .nonFinite _ => "NonFinite"
  | .unreadableDocument => "Serialization"
  | .unreadableConfig => "ConfigParse"
  | .unwritableConfig => "Config"
  | .missingFile => "Io"
  | .fault _ => "Panic"

instance : View Error where
  view e := .record (("error", view e.kind) :: (e.message?.map fun m => ("message", view m)).toList)

/-- What is shown of a budget after a charge that took something or failed. -/
def Budget.figures (b : Budget) (taken : Option Nat) (failure : Option Error) : Document := .record [
  ("footprint", view taken),
  ("failure", view (failure.map fun e => Document.record [
    ("capacity_error", view e.isCapacity),
    ("message", view e.message?)])),
  ("used", view b.used),
  ("remaining", view b.remaining),
  ("capacity", view b.capacity),
  ("allocations", view b.allocations)]

/-- What is shown of a pool after an operation. -/
def SlotPool.figures {α : Type} (p : SlotPool α) (out : Document) : Document := .record [
  ("out", out),
  ("len", view p.size),
  ("capacity", view p.capacity),
  ("empty", view p.isEmpty),
  ("full", view p.isFull)]

instance : View (Tensor Float32) where
  view t := .record [
    ("rows", view t.rows),
    ("cols", view t.cols),
    ("stride", view t.stride),
    ("len", view t.size),
    ("empty", view (t.size == 0)),
    ("footprint", view t.footprint),
    ("finite", view t.isFinite)]

instance : View Percept where
  view p := .record [
    ("visible", view p.playerVisible),
    ("speaking", view p.playerSpeaking),
    ("combat", view p.combat),
    ("threat", view p.threat)]

instance : View Affect where
  view f := .record [
    ("values", view f.values),
    ("since", view f.sinceInteraction),
    ("finite", view f.isFinite),
    ("level", view f.level),
    ("opinion", view f.opinion.name),
    ("trusts", view f.trusts),
    ("likes", view f.likes),
    ("dominant", view (f.dominant.1.name, f.dominant.2))]

/-- A range of a vector, which has to have it. -/
def Vec.part (v : Vec) (start stop : Nat) : Outcome Vec := do
  requireWithin stop v.size
  requireWithin start stop
  return v.extract start stop

/-- What is shown of attention: its sums over regions, and a range of the channels. -/
def Attention.figures (t : Attention) (attended : Document) (start stop : Nat) : Outcome Document := do
  return .record [
    ("attended", attended),
    ("region_sums", view (Region.all.map fun g => Vec.total (g.slice t.levels))),
    ("novelty", view t.novelty),
    ("finite", view t.isFinite),
    ("attention", view (← Vec.part t.levels start stop)),
    ("expectation", view (← Vec.part t.expectation start stop)),
    ("working_memory", View.sparse t.workingMemory)]

/-- The actions that numbers pick, and the most likely one. -/
def Choice.figures (probs draws : Vec) : List (String × Document) := [
  ("draws", view (draws.map fun u => (Choice.sample probs u).name)),
  ("mode", view (Choice.mostLikely probs).name)]

/-- What is shown of a distribution over actions and the signals next to it. -/
def Signals.figures (s : Signals) (probs draws : Vec) : Document := .record (Choice.figures probs draws ++ [
  ("probs", view probs),
  ("movement", view s.movement),
  ("speed", view s.speed),
  ("memory_write", view s.memoryWrite),
  ("learning_rate", view s.learningRate),
  ("intensity", view s.intensity)])

instance : View Decision where
  view d := .record [
    ("action", view d.action.name),
    ("confidence", view d.confidence),
    ("intensity", view d.intensity),
    ("movement", view d.movement),
    ("speed", view d.speed),
    ("speech", view d.speech.text),
    ("emotion", view d.dominantEmotion.name),
    ("tone", view d.emotionalTone),
    ("write_signal", view d.memoryWriteSignal),
    ("learning_rate", view d.learningRate),
    ("written", view d.memoryWritten),
    ("degraded", view d.degraded),
    ("tick", view d.tick.toNat),
    ("attention", view (Region.all.map fun g => (d.meanAttention g.start g.stop).toOption))]

instance : View CellState where
  view s := .record [
    ("hidden", view s.hidden),
    ("cell", view s.cell),
    ("prev_cell", view s.previousCell),
    ("gates", view (Gate.all.map s.gate)),
    ("concat", view s.intake),
    ("steps", view s.steps),
    ("finite", view s.isFinite)]

/-- What is shown of the shape of a layer and the budget that its state was charged to. -/
def Cell.figures (c : Cell) (b : Budget) : Document := .record [
  ("input", view c.inputSize),
  ("hidden", view c.hiddenSize),
  ("concat", view c.intakeSize),
  ("count", view c.parameterCount),
  ("arena", view b.used)]

/-- What is shown of the shape of a stack and of the pools of its states. -/
def Stack.figures (s : Stack) (pools : StatePools) : Document := .record [
  ("input", view s.inputSize),
  ("hidden", view s.hiddenSizes),
  ("count", view s.parameterCount),
  ("final_offset", view s.finalOffset),
  ("final_out", view (s.outputSize .finalLayer)),
  ("all_out", view (s.outputSize .allLayers)),
  ("layers", view pools.layerCount),
  ("capacity", view pools.capacity),
  ("in_use", view pools.inUse)]

/-- What is shown of links after an operation. -/
def Links.figures (l : Links) (out : Document) : Document :=
  .record [("out", out), ("links", Codec.encode l), ("last", view l.last)]

instance : View Recall where
  view r := .record [
    ("slot", view r.slot),
    ("score", view r.score),
    ("heads", view r.heads),
    ("out", view r.content)]

instance : View MemoryAnalysis where
  view a := .record [
    ("capacity", view a.capacity),
    ("occupied", view a.occupied),
    ("average_usage", view a.averageUsage),
    ("max_usage", view a.maxUsage),
    ("average_importance", view a.averageImportance),
    ("writes", view a.writes)]

/-- What is shown of a write and the memory after it. -/
def Stored.figures (stored : Option Stored) (m : Memory) : Document := .record [
  ("out", view (stored.map fun w =>
    Document.record [("slot", view w.slot), ("evicted", view w.evicted)])),
  ("usage", view m.usage),
  ("importance", view m.importance),
  ("writes", view m.writes)]

/-- What is shown of the shape of a memory. -/
def Memory.figures (m : Memory) : Outcome Document := do
  return .record [
    ("capacity", view m.capacity),
    ("width", view m.width),
    ("heads", view m.config.readHeads),
    ("occupied", view m.occupied),
    ("empty", view m.isEmpty),
    ("recent", view (← m.links.recent)),
    ("last", view m.links.last)]

/-- What is shown of a board, after something else. -/
def Board.figures (b : Board) (first : String × Document) : Document := .record [
  first,
  ("published", view b.published),
  ("rejected", view b.rejected),
  ("threshold", view b.threshold),
  ("analysis", view b.memory.analyze)]

instance : View (FisherTable Float32) where
  view t := .record [
    ("count", view t.parameterCount),
    ("nnz", view t.size),
    ("empty", view t.entries.isEmpty),
    ("sparsity", view t.sparsity),
    ("entries", view t.entries)]

/-- What is shown of an accumulator after an operation. -/
def Accumulator.figures (a : Accumulator) (out : Document) : Document := .record [
  ("out", out),
  ("samples", view a.samples.toNat),
  ("empty", view a.isEmpty),
  ("count", view a.parameterCount)]

instance : View (Task Float32) where
  view t := .record [
    ("name", view t.name),
    ("importance", view t.importance),
    ("created_tick", view t.createdTick),
    ("nnz", view t.fisher.size),
    ("sparsity", view t.fisher.sparsity)]

instance : View Consolidator where
  view k := .record [
    ("lambda", view k.lambda),
    ("consolidations", view k.consolidations),
    ("entries", view k.entryCount),
    ("count", view k.parameterCount),
    ("max_tasks", view k.maxTasks),
    ("task_count", view k.tasks.length),
    ("tasks", view k.tasks)]

instance : View (PenaltyReport Float32) where
  view r := .record [("value", view r.value), ("visited", view r.visited), ("tasks", view r.tasks)]

namespace Agent

/-- The number of a memory slot that a name like `slot3` gives. -/
def slotNamed? (name : String) : Option Nat :=
  match name.toList with
  | 's' :: 'l' :: 'o' :: 't' :: digits =>
    if !digits.isEmpty && digits.all Char.isDigit then (String.ofList digits).toNat? else none
  | _ => none

/-- A vector of an agent, by its name. -/
def vector? (a : Agent) (name : String) : Option Vec :=
  match name with
  | "affect" => some a.affect.values
  | "probs" => some a.probabilities
  | "attention" => some a.attention.levels
  | "expectation" => some a.attention.expectation
  | "working_memory" => some a.attention.workingMemory
  | "context" => some a.longTermContext
  | "usage" => some a.memory.usage
  | "importance" => some a.memory.importance
  | _ => do return (← a.memory.slots[← slotNamed? name]?).content

/-- A vector of an agent, or a range of it, cut to what there is. -/
def vectorOf? (a : Agent) : Document → Option Vec
  | .list (name :: range) => do
    let v ← a.vector? (← Argument.read? name)
    let range : List Nat ← Argument.read? (.list range)
    return v.extract (range.getD 0 0) (range.getD 1 v.size)
  | _ => none

/-- The parameters of an agent at some places. -/
def parametersAt? (a : Agent) (places : List Nat) : Option (List Float32) :=
  match a.controller with
  | none => some []
  | some stack => places.mapM stack.parameter?

/-- What is shown of an agent, with some vectors and parameters and the first Fisher entries of each
task. -/
def figures (a : Agent) (vectors : List Vec) (parameters : List Float32) (entries : Nat) :
    Outcome Document := do
  return .record [
    ("profile", Codec.encode a.profile),
    ("binding", view a.binding.name),
    ("ticks", view a.ticks.toNat),
    ("arena_used", view a.budget.used),
    ("level", view a.affect.level),
    ("opinion", view a.affect.opinion.name),
    ("trusts", view a.affect.trusts),
    ("likes", view a.affect.likes),
    ("novelty", view a.attention.novelty),
    ("memory", view a.memory.analyze),
    ("recent", view (← a.memory.links.recent)),
    ("consolidator", view a.consolidator),
    ("fisher_entries", view (a.consolidator.tasks.map fun t => t.fisher.entries.take entries)),
    ("penalty", view (← a.penalty)),
    ("vectors", view vectors),
    ("params", view parameters)]

end Agent

instance : View Society where
  view w := .record [
    ("len", view w.size),
    ("empty", view (w.size == 0)),
    ("capacity", view w.capacity),
    ("ids", view ((w.ids.map Uuid.render).mergeSort (· ≤ ·))),
    ("kernels", view w.backend.name),
    ("parameters", view w.controller.parameterCount),
    ("config_backend", Codec.encode w.config.numerics.backend)]

end NpcMind
