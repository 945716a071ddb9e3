import NpcMind.Proofs.Alike
import NpcMind.Proofs.Consolidation
import NpcMind.Proofs.Memories
import NpcMind.Proofs.Parameters
import NpcMind.Proofs.Spawning

/-!
# What holds of an agent all its life

An agent is spawned with vectors of certain lengths, a controller of a certain shape, and a seed and a
baseline that its profile determines. `Agent.Sound` collects these facts; ticks, resets, rewards and shifts
of a relationship keep them, and so does resuming from a snapshot that was taken of such an agent.
-/

namespace NpcMind

open StatePools Outcome

/-! ### Affect -/

namespace Affect

variable {f f' f'' : Affect}

/-- The same baseline, and as many components. -/
structure SameFrame (f f' : Affect) : Prop where
  baseline : f'.baseline = f.baseline
  size : f'.values.size = f.values.size

namespace SameFrame

theorem put (h : SameFrame f f') (e : Emotion) (x : Float32) : SameFrame f (f'.put e x) :=
  ⟨h.baseline, Array.size_setIfInBounds.trans h.size⟩

theorem raise (h : SameFrame f f') (e : Emotion) (x : Float32) : SameFrame f (f'.raise e x) := h.put e _

theorem ease (h : SameFrame f f') (e : Emotion) (rate dt : Float32) : SameFrame f (f'.ease e rate dt) :=
  h.put e _

theorem confine (h : SameFrame f f') : SameFrame f f'.confine := ⟨h.baseline, Array.size_mapIdx.trans h.size⟩

theorem settle (h : SameFrame f f') (kept : Float32) : SameFrame f (f'.settle kept) :=
  ⟨h.baseline, Array.size_mapIdx.trans h.size⟩

theorem ite {c : Prop} [Decidable c] (h : SameFrame f f') (h' : SameFrame f f'') :
    SameFrame f (if c then f' else f'') := by
  split
  · exact h
  · exact h'

theorem converse (h : SameFrame f f') (tone dt : Float32) : SameFrame f (f'.converse tone dt) := by
  unfold Affect.converse
  refine (ease (ite ?_ (ite ?_ h)) _ _ _).raise _ _
  · exact (((((h.raise _ _).raise _ _).raise _ _).ease _ _ _).ease _ _ _).ease _ _ _
  · exact (((h.raise _ _).raise _ _).ease _ _ _).ease _ _ _

theorem meet (h : SameFrame f f') (tone : Float32) : SameFrame f (f'.meet tone) := by
  have hcount : SameFrame f (if tone > 0.5 then f'.raise .positiveInteractions 1
      else if tone < -0.5 then f'.raise .negativeInteractions 1 else f') :=
    ite (h.raise _ _) (ite (h.raise _ _) h)
  have hfirst := hcount.put .firstMeetingQuality tone
  exact ite hcount ⟨hfirst.baseline, hfirst.size⟩

theorem impress (h : SameFrame f f') (tone : Float32) : SameFrame f (f'.impress tone) := by
  have hlast := h.put .lastInteractionQuality tone
  unfold Affect.impress
  exact ite ((ite (hlast.put _ _) hlast).put _ _) (ite (hlast.put _ _) hlast)

theorem wait (h : SameFrame f f') (dt : Float32) : SameFrame f (f'.wait dt) := by
  have hwait : SameFrame f { f' with sinceInteraction := f'.sinceInteraction + dt } := ⟨h.baseline, h.size⟩
  exact ite (hwait.raise _ _) hwait

theorem endure (h : SameFrame f f') (a : Archetype) (s : Stimulus) (dt : Float32) :
    SameFrame f (f'.endure a s dt) := by
  have hfear := h.raise .fear (0.3 * dt)
  unfold Affect.endure
  have hcombat := ite (c := s.combat > 0.5)
    (ite (c := a.relishesCombat) (hfear.raise .joy (0.12 * dt)) (hfear.raise .fear (0.18 * dt))) h
  exact ite ((hcombat.raise _ _).ease _ _ _) hcombat

theorem observe (h : SameFrame f f') (s : Stimulus) : SameFrame f (f'.observe s) :=
  (((((h.put _ _).put _ _).put _ _).put _ _).put _ _).put _ _

theorem feel (f : Affect) (a : Archetype) (s : Stimulus) (retention dt : Float32) :
    SameFrame f (f.feel a s retention dt) := by
  unfold Affect.feel
  dsimp only
  generalize (if dt.isFinite then Single.larger dt 0 else 0) = dt
  have hsettled : SameFrame f (f.settle (Single.pow retention dt)) := settle ⟨rfl, rfl⟩ _
  have htalk : SameFrame f { (f.settle (Single.pow retention dt)).converse s.tone dt with
      sinceInteraction := 0 } := ⟨(hsettled.converse _ _).baseline, (hsettled.converse _ _).size⟩
  refine ((endure ⟨?_, ?_⟩ a s dt).observe s).confine
  · exact (ite (impress (ite (htalk.meet _) htalk) _) (hsettled.wait dt)).baseline
  · exact (ite (impress (ite (htalk.meet _) htalk) _) (hsettled.wait dt)).size

theorem shift (f : Affect) (change : Float32) : SameFrame f (f.shift change) := by
  unfold Affect.shift
  have hself : SameFrame f f := ⟨rfl, rfl⟩
  have hwarm := (hself.raise .trust (0.5 * Single.signed change)).raise .affection (0.3 * Single.signed change)
  exact ite (confine (put (ite (hwarm.raise _ _) (hwarm.raise _ _)) _ _)) hself

end SameFrame

end Affect

theorem Archetype.size_baseline (t : Archetype) : t.baseline.size = Emotion.count := by
  cases t <;> rfl

/-! ### The states of a controller -/

/-- What is carried on to the next step has that many values. -/
structure CellState.HasSize (n : Nat) (s : CellState) : Prop where
  hidden : s.hidden.size = n
  cell : s.cell.size = n

theorem CellState.HasSize.reset {n : Nat} {s : CellState} (h : s.HasSize n) : s.reset.HasSize n :=
  ⟨Array.size_replicate.trans h.hidden, Array.size_replicate.trans h.cell⟩

theorem Guard.size_check {g : Guard} {site : String} {xs ys : Vec} {n : Nat}
    (h : g.check site xs = .ok (n, ys)) : ys.size = xs.size := by
  unfold check at h
  split at h
  · cases h
    rfl
  · split at h
    · cases h
    · cases h
      exact Array.size_map

theorem Cell.hasSize_step {c : Cell} {b : Backend} {g : Guard} {s s' : CellState} {input : Vec} {n : Nat}
    (h : c.step b g s input = .ok (n, s')) : s'.HasSize c.hiddenSize := by
  unfold step at h
  obtain ⟨_, -, h⟩ := ok_of_bind h
  obtain ⟨⟨_, cell⟩, hcell, h⟩ := ok_of_bind h
  obtain ⟨⟨_, hidden⟩, hhidden, h⟩ := ok_of_bind h
  cases h
  refine ⟨(Guard.size_check hhidden).trans ?_, (Guard.size_check hcell).trans ?_⟩
  · rw [Array.size_map, Array.size_range]
  · rw [Array.size_map, Array.size_range]

namespace Stack

/-- A step through layers, broken off or not, leaves every state with the size of its layer. -/
theorem advance_sizes (b : Backend) (g : Guard) {layers : List (SlotPool CellState)}
    {handles : List Handle} {states : List CellState} (hv : Sees layers handles states) {cells : List Cell}
    (hs : List.Forall₂ CellState.HasSize (cells.map Cell.hiddenSize) states) (input : Vec) :
    ∃ next, (advance b g cells layers handles input).2 = putAll layers handles next ∧
      List.Forall₂ CellState.HasSize (cells.map Cell.hiddenSize) next := by
  induction hv generalizing cells input with
  | nil pools =>
    cases cells with
    | nil => exact ⟨[], by simp [advance], .nil⟩
    | cons c cells => cases hs
  | @cons pool pools h handles s states hg hv ih =>
    cases cells with
    | nil => cases hs
    | cons c cells =>
      obtain ⟨hs, hrest⟩ := List.forall₂_cons.mp hs
      simp only [advance, SlotPool.get_eq_ok.mpr hg, bind, Except.bind]
      cases hstep : c.step b g s input with
      | error e => exact ⟨s :: states, (putAll_of_sees (.cons hg hv)).symm, .cons hs hrest⟩
      | ok r =>
        obtain ⟨next, hadvance, hnext⟩ := ih hrest r.2.hidden
        refine ⟨r.2 :: next, ?_, .cons (Cell.hasSize_step hstep) hnext⟩
        dsimp only
        generalize advance b g cells pools handles r.2.hidden = rest at hadvance ⊢
        obtain ⟨_ | _, after⟩ := rest <;> exact congrArg (pool.set h r.2 :: ·) hadvance

theorem forward_sizes {s : Stack} {b : Backend} {g : Guard} {p : StatePools} {handles : List Handle}
    {states : List CellState} (hv : Sees p.layers handles states)
    (hs : List.Forall₂ CellState.HasSize s.hiddenSizes states) (input : Vec) (mode : OutputMode)
    (size : Nat) :
    ∃ next, (s.forward b g p handles input mode size).2 = p.put handles next ∧
      List.Forall₂ CellState.HasSize s.hiddenSizes next := by
  unfold forward
  dsimp only
  split
  · exact ⟨states, (put_of_sees hv).symm, hs⟩
  · obtain ⟨next, hadvance, hnext⟩ := advance_sizes b g hv hs input
    refine ⟨next, ?_, hnext⟩
    generalize advance b g s.layers p.layers handles input = r at hadvance ⊢
    obtain ⟨_ | _, after⟩ := r <;> exact congrArg StatePools.mk hadvance

end Stack

/-! ### The shape of an agent -/

namespace Agent

/-- How many parameters there are, if any. -/
def countOf (controller : Option Stack) : Nat := (controller.map Stack.parameterCount).getD 0

/-- As many states as layers, each of the size of its layer. -/
def StatesFit (controller : Option Stack) (states : List CellState) : Prop :=
  List.Forall₂ CellState.HasSize ((controller.map Stack.hiddenSizes).getD []) states

/-- A controller is what the binding says, and gives out as many values as expected. -/
structure Bound (c : Config) (shared : Stack) (binding : Binding) (controller : Option Stack)
    (outputSize : Nat) : Prop where
  affordable : Affordable c (initialController binding shared)
  detached : binding = .detached → controller = none
  attached : binding ≠ .detached → ∃ s, controller = some s ∧ s.Fits shared
  shared : binding = .shared → controller = some shared
  outputSize : outputSize = (controller.map (·.outputSize c.controller.outputMode)).getD Config.readoutWidth

/-- Only an agent that is attached has a controller, and that has the shape of the shared one. -/
theorem Bound.fits {c : Config} {shared stack : Stack} {binding : Binding} {controller : Option Stack}
    {outputSize : Nat} (h : Bound c shared binding controller outputSize) (hc : controller = some stack) :
    binding ≠ .detached ∧ stack.Fits shared := by
  have hattached : binding ≠ .detached := by
    intro hd
    rw [h.detached hd] at hc
    cases hc
  obtain ⟨stack', hc', hfits⟩ := h.attached hattached
  rw [hc] at hc'
  cases hc'
  exact ⟨hattached, hfits⟩

theorem Bound.countOf_le {c : Config} {shared : Stack} {binding : Binding} {controller : Option Stack}
    {outputSize : Nat} (h : Bound c shared binding controller outputSize) :
    countOf controller ≤ shared.parameterCount := by
  cases hc : controller with
  | none => exact Nat.zero_le _
  | some stack => exact (h.fits hc).2.parameterCount.le

/-- What holds of an agent all its life. -/
structure Sound (c : Config) (shared : Stack) (a : Agent) : Prop where
  bound : Bound c shared a.binding a.controller a.outputSize
  memory : a.memory.Fits c.memory
  baseline : a.affect.baseline = a.profile.archetype.baseline
  feelings : a.affect.values.size = Emotion.count
  levels : a.attention.levels.size = channelCount
  expectation : a.attention.expectation.size = channelCount
  workingMemory : a.attention.workingMemory.size = workingMemorySize
  context : a.longTermContext.size = vectorSize c.memory.width
  seed : a.sampler.seed = a.profile.id.seed
  consolidator : a.consolidator.Fits (countOf a.controller) c.consolidation
  accumulator : a.accumulator.Fits (countOf a.controller)
  overBudget : a.decision.overBudget = false

variable {c : Config} {shared : Stack} {a b : Agent} {env : Surroundings} {p q : StatePools}
  {states : List CellState}

theorem Sound.attend (h : a.Sound c shared) (t : Config.Temper) (s : Senses) (e : Encounter) :
    (a.attend t s e).2.Sound c shared := by
  unfold Agent.attend
  exact ⟨h.bound, h.memory, h.baseline, h.feelings, Array.size_mapIdx.trans h.levels,
    Array.size_mapIdx.trans h.expectation, Array.size_mapIdx.trans h.workingMemory, h.context, h.seed,
    h.consolidator, h.accumulator, h.overBudget⟩

/-- What both memories recall is as long as the context. -/
theorem size_recollect (hm : a.memory.Fits c.memory)
    (hc : a.longTermContext.size = vectorSize c.memory.width) {env : Surroundings}
    (hboard : ∀ board, env.board = some board → ∃ c' threshold,
      board.Fits c' threshold ∧ c'.width = c.memory.width)
    {query context : Vec} (hquery : query.size = vectorSize c.memory.width)
    (hr : a.recollect env query = .ok context) : context.size = vectorSize c.memory.width := by
  -- A memory that answers a query is as wide as the query.
  have hread {m : Memory} {c' : Config.Memory} (hm : m.Fits c') (hw : c'.width = c.memory.width)
      {k : Backend} {found : Recall} (hr : m.read k query query.size = .ok found) :
      found.content.size = vectorSize c.memory.width := by
    obtain ⟨_, hcheck, -⟩ := ok_of_bind hr
    obtain ⟨_, hwidth, -⟩ := ok_of_bind hcheck
    have hsize := eq_of_expectSize hwidth
    rw [Memory.width, hm.config, hw, hquery] at hsize
    exact (hm.size_read hr).trans (hw.trans hsize)
  have hmingle {kept taken : Float32} {context found : Vec} (hc : context.size = vectorSize c.memory.width)
      (hf : found.size = vectorSize c.memory.width) :
      (mingle kept taken context found).size = vectorSize c.memory.width := by
    rw [mingle, Array.size_zipWith, hc, hf, Nat.min_self]
  obtain ⟨own, hown, hr⟩ := ok_of_bind hr
  have hown : own.size = vectorSize c.memory.width := by
    obtain ⟨found, hfound, hown⟩ := ok_of_bind hown
    cases found with
    | none =>
      cases hown
      exact hc
    | some found =>
      cases hown
      exact hmingle hc (hread hm rfl (of_tolerate hfound))
  unfold recallGossip at hr
  split at hr
  · cases hr
    exact hown
  · next board hb =>
    obtain ⟨c', threshold, hfits, hw⟩ := hboard board hb
    obtain ⟨found, hfound, hr⟩ := ok_of_bind hr
    cases found with
    | none =>
      cases hr
      exact hown
    | some found =>
      cases hr
      split
      · exact hmingle hown (hread hfits.memory hw (of_tolerate hfound))
      · exact hown

theorem size_query (hm : a.memory.Fits c.memory) (hf : a.affect.values.size = Emotion.count)
    {attended query : Vec} (hq : a.query attended = .ok query) :
    query.size = vectorSize c.memory.width := by
  unfold Agent.query at hq
  obtain ⟨_, hwithin, hq⟩ := ok_of_bind hq
  cases hq
  rw [Memory.width, hm.config] at hwithin ⊢
  have hle := le_of_requireWithin hwithin
  have hpool : (poolChannels attended (Vec.zeros pooledWidth)).size = pooledWidth :=
    Array.size_mapIdx.trans Array.size_replicate
  have hbasic : (a.affect.values.extract 0 Emotion.basicCount).size = Emotion.basicCount := by
    rw [Array.size_extract, hf]
    rfl
  have hrest : (Vec.zeros (vectorSize c.memory.width - sensedWidth)).size =
      vectorSize c.memory.width - sensedWidth := Array.size_replicate
  rw [Array.size_append, Array.size_append, hpool, hbasic, hrest]
  unfold sensedWidth at hle ⊢
  omega

/-! ### Stages of a tick -/

theorem choose_eq {readout : Vec} {company : Bool} (h : a.choose c readout company = .ok b) :
    ∃ probabilities sampler decision, b = { a with probabilities, sampler, decision } ∧
      sampler.seed = a.sampler.seed ∧ decision.overBudget = a.decision.overBudget := by
  unfold choose at h
  obtain ⟨probabilities, -, h⟩ := ok_of_bind h
  obtain ⟨signals, -, h⟩ := ok_of_bind h
  cases h
  exact ⟨_, _, _, rfl, rfl, rfl⟩

theorem decide_eq {attended : Vec} {percept : Percept} {e : Encounter}
    (h : a.decide env p attended percept e = .ok (b, q)) :
    ∃ probabilities sampler decision, b = { a with probabilities, sampler, decision } ∧
      sampler.seed = a.sampler.seed ∧ decision.overBudget = a.decision.overBudget := by
  have hreflex : ∃ probabilities sampler decision,
      a.actByReflex percept e = { a with probabilities, sampler, decision } ∧
        sampler.seed = a.sampler.seed ∧ decision.overBudget = a.decision.overBudget :=
    ⟨a.probabilities, a.sampler, _, rfl, rfl, rfl⟩
  unfold Agent.decide at h
  split at h
  · cases h
    exact hreflex
  · split at h
    · split at h
      · cases h
      · cases h
        exact hreflex
      · obtain ⟨b', hb, h⟩ := ok_of_bind h
        cases h
        exact choose_eq hb
    · cases h
      exact hreflex

theorem statesFit_reset {controller : Option Stack} (h : StatesFit controller states) :
    StatesFit controller (states.map CellState.reset) :=
  List.forall₂_map_right_iff.mpr (h.imp fun _ _ => .reset)

theorem decide_states {attended : Vec} {percept : Percept} {e : Encounter}
    (h : a.decide env p attended percept e = .ok (b, q)) (hv : Sees p.layers a.handles states)
    (hs : StatesFit a.controller states) :
    ∃ next, q = p.put a.handles next ∧ StatesFit a.controller next := by
  have hkept : ∃ next, p = p.put a.handles next ∧ StatesFit a.controller next :=
    ⟨states, (put_of_sees hv).symm, hs⟩
  unfold Agent.decide at h
  split at h
  · cases h
    exact hkept
  · next stack hc =>
    rw [hc] at hs ⊢
    split at h
    · obtain ⟨next, hforward, hnext⟩ := Stack.forward_sizes (b := env.backend) (g := env.guard) hv hs
        (a.controllerInput attended) env.config.controller.outputMode a.outputSize
      refine ⟨next, ?_, hnext⟩
      rw [← hforward]
      split at h
      · cases h
      · next hf =>
        cases h
        rw [hf]
      · next hf =>
        obtain ⟨b', -, h⟩ := ok_of_bind h
        cases h
        rw [hf]
    · cases h
      rw [reset_eq hv]
      exact ⟨_, rfl, statesFit_reset hs⟩

theorem Sound.decide (h : a.Sound c shared) {attended : Vec} {percept : Percept} {e : Encounter}
    (hd : a.decide env p attended percept e = .ok (b, q)) : b.Sound c shared := by
  obtain ⟨_, _, _, rfl, hseed, hover⟩ := decide_eq hd
  exact ⟨h.bound, h.memory, h.baseline, h.feelings, h.levels, h.expectation, h.workingMemory, h.context,
    hseed.trans h.seed, h.consolidator, h.accumulator, hover.trans h.overBudget⟩

theorem Sound.feel (h : a.Sound c shared) (t : Config.Temper) (s : Senses) (e : Encounter) (dt : Float32) :
    (a.feel t s e dt).Sound c shared := by
  have hframe := Affect.SameFrame.feel a.affect a.profile.archetype
    (Stimulus.ofScene s e (s.percept e).combat) t.affectRetention dt
  unfold Agent.feel
  exact ⟨h.bound, h.memory, hframe.baseline.trans h.baseline, hframe.size.trans h.feelings, h.levels,
    h.expectation, h.workingMemory, h.context, h.seed, h.consolidator, h.accumulator, h.overBudget⟩

theorem Sound.sampleFisher (h : a.Sound c shared) (p : StatePools) (logitScale : Float32) :
    (a.sampleFisher p logitScale).Sound c shared := by
  unfold Agent.sampleFisher
  split
  · next gradient _ =>
    have hsums := h.accumulator.addAll gradient
    exact ⟨h.bound, h.memory, h.baseline, h.feelings, h.levels, h.expectation, h.workingMemory, h.context,
      h.seed, h.consolidator, ⟨hsums.size, hsums.unsigned⟩, h.overBudget⟩
  · exact h

theorem Sound.consolidateInTime (h : a.Sound c shared) (hmax : c.consolidation.maxTasks ≠ 0) (taskId : Uuid) :
    (a.consolidateInTime c.consolidation taskId).Sound c shared := by
  have hconsolidated : (a.consolidated c.consolidation taskId).Fits (countOf a.controller) c.consolidation := by
    unfold consolidated
    split
    · exact h.consolidator
    · split
      · exact h.consolidator
      · dsimp only
        split
        · next hk => exact h.consolidator.consolidate hmax hk
        · exact h.consolidator
  unfold Agent.consolidateInTime
  split
  · refine ⟨h.bound, h.memory, h.baseline, h.feelings, h.levels, h.expectation, h.workingMemory, h.context,
      h.seed, hconsolidated, ?_, h.overBudget⟩
    simp only [consolidate, h.accumulator.reset]
    exact Accumulator.fits_ofCount _
  · exact h

theorem Sound.remember (h : a.Sound c shared) (hmax : c.consolidation.maxTasks ≠ 0) {taskId : Uuid} {query : Vec}
    (hr : a.remember p c taskId query = .ok b) : b.Sound c shared := by
  have hforgo : a.forgo.Sound c shared :=
    ⟨h.bound, h.memory, h.baseline, h.feelings, h.levels, h.expectation, h.workingMemory, h.context, h.seed,
      h.consolidator, h.accumulator, h.overBudget⟩
  obtain rfl | ⟨-, experience, strength, stored, memory, hw, rfl⟩ := remember_cases hr
  · exact hforgo
  · have hnote : (a.note memory experience a.decision.memoryWriteSignal).Sound c shared :=
      ⟨h.bound, h.memory.write hw, h.baseline, h.feelings, h.levels, h.expectation, h.workingMemory,
        h.context, h.seed, h.consolidator, h.accumulator, h.overBudget⟩
    rw [learn_eq]
    exact (hnote.sampleFisher p _).consolidateInTime hmax taskId

/-- Nothing but the speech depends on what is said. -/
theorem compose_eq (d : Decision) (f : Affect) (e : Encounter) :
    ∃ speech, Speech.compose d f e = { d with speech } := by
  have hfold (parts : List String) (d : Decision) :
      ∃ speech, parts.foldl Decision.pushSpeech d = { d with speech } := by
    induction parts generalizing d with
    | nil => exact ⟨d.speech, rfl⟩
    | cons line rest ih => exact ih (d.pushSpeech line)
  exact hfold _ _

theorem Sound.express (h : a.Sound c shared) (e : Encounter) : (a.express e).Sound c shared := by
  unfold Agent.express
  refine ⟨h.bound, h.memory, h.baseline, h.feelings, h.levels, h.expectation, h.workingMemory, h.context,
    h.seed, h.consolidator, h.accumulator, ?_⟩
  obtain ⟨speech, hspeech⟩ := compose_eq _ _ _
  exact (congrArg Decision.overBudget hspeech).trans h.overBudget

theorem remember_parameters {taskId : Uuid} {query : Vec} (h : a.remember p c taskId query = .ok b) :
    b.binding = a.binding ∧ b.controller = a.controller := by
  obtain rfl | ⟨-, experience, strength, stored, memory, -, rfl⟩ := remember_cases h
  · exact ⟨rfl, rfl⟩
  · obtain ⟨_, _, _, _, hlearn⟩ := a.learn_eq_note p c taskId memory experience a.decision.memoryWriteSignal
    rw [hlearn]
    exact ⟨rfl, rfl⟩

/-- A tick leaves the parameters and their binding alone. -/
theorem tick_parameters {s : Senses} {e : Encounter} {dt : Float32} (ht : a.tick env p s e dt = .ok (b, q)) :
    b.binding = a.binding ∧ b.controller = a.controller := by
  unfold Agent.tick at ht
  obtain ⟨query, -, ht⟩ := ok_of_bind ht
  obtain ⟨longTermContext, -, ht⟩ := ok_of_bind ht
  obtain ⟨⟨a₂, q₂⟩, hdecide, ht⟩ := ok_of_bind ht
  obtain ⟨a₃, hremember, ht⟩ := ok_of_bind ht
  cases ht
  obtain ⟨_, _, _, rfl, -⟩ := decide_eq hdecide
  obtain ⟨_, hfelt⟩ := feel_eq _ env.config.temper s e dt
  rw [hfelt] at hremember
  obtain ⟨hbinding, hcontroller⟩ := remember_parameters hremember
  exact ⟨hbinding, hcontroller⟩

theorem Sound.tick (h : a.Sound c shared) (hmax : c.consolidation.maxTasks ≠ 0) (hc : env.config = c)
    (hboard : ∀ board, env.board = some board → ∃ c' threshold,
      board.Fits c' threshold ∧ c'.width = c.memory.width)
    (hv : Sees p.layers a.handles states) (hs : StatesFit a.controller states)
    {s : Senses} {e : Encounter} {dt : Float32} (ht : a.tick env p s e dt = .ok (b, q)) :
    b.Sound c shared ∧ ∃ next, q = p.put a.handles next ∧ StatesFit b.controller next := by
  subst hc
  have hattend := h.attend env.config.temper s e
  have hparameters := (tick_parameters ht).2
  have hkeep := a.attend_keeps env.config.temper s e
  have hattended : (a.attend env.config.temper s e).2.controller = a.controller := rfl
  unfold Agent.tick at ht
  dsimp only at ht
  generalize a.attend env.config.temper s e = r at hattend hkeep hattended ht
  obtain ⟨attended, a₁⟩ := r
  obtain ⟨query, hquery, ht⟩ := ok_of_bind ht
  obtain ⟨longTermContext, hrecollect, ht⟩ := ok_of_bind ht
  obtain ⟨⟨a₂, q₂⟩, hdecide, ht⟩ := ok_of_bind ht
  obtain ⟨a₃, hremember, ht⟩ := ok_of_bind ht
  cases ht
  have hcontext := size_recollect hattend.memory hattend.context hboard
    (size_query hattend.memory hattend.feelings hquery) hrecollect
  have hrecalled : ({ a₁ with longTermContext } : Agent).Sound env.config shared :=
    ⟨hattend.bound, hattend.memory, hattend.baseline, hattend.feelings, hattend.levels, hattend.expectation,
      hattend.workingMemory, hcontext, hattend.seed,
      hattend.consolidator, hattend.accumulator, hattend.overBudget⟩
  refine ⟨(((hrecalled.decide hdecide).feel _ s e dt).remember hmax hremember).express e, ?_⟩
  rw [hparameters, ← hattended, ← hkeep.handles]
  rw [← hkeep.handles] at hv
  rw [← hattended] at hs
  obtain ⟨next, hput, hnext⟩ := decide_states hdecide hv hs
  exact ⟨next, hput, hnext⟩

/-! ### Operations on an agent -/

/-- A sound agent with states that fit its controller. -/
structure Whole (c : Config) (shared : Stack) (a : Agent) (states : List CellState) : Prop where
  sound : a.Sound c shared
  states : StatesFit a.controller states

/-- The operation leaves a sound agent with states that fit, as many as before. -/
def Upholds {β : Type} (c : Config) (shared : Stack)
    (act : Agent → StatePools → Outcome β × Agent × StatePools) (a : Agent) (p : StatePools)
    (states : List CellState) : Prop :=
  ∃ out b next, act a p = (out, b, p.put a.handles next) ∧ next.length = states.length ∧
    Whole c shared b next

theorem Whole.tickAct (h : Whole c shared a states) (hmax : c.consolidation.maxTasks ≠ 0)
    (hc : env.config = c)
    (hboard : ∀ board, env.board = some board → ∃ c' threshold,
      board.Fits c' threshold ∧ c'.width = c.memory.width)
    (hv : Sees p.layers a.handles states) (s : Senses) (e : Encounter) (dt : Float32) :
    Upholds c shared (Agent.tickAct env s e dt) a p states := by
  unfold Upholds Agent.tickAct
  cases ht : a.tick env p s e dt with
  | error err => exact ⟨.error err, a, states, by rw [put_of_sees hv], rfl, h⟩
  | ok r =>
    obtain ⟨b, q⟩ := r
    obtain ⟨hb, next, rfl, hnext⟩ := h.sound.tick hmax hc hboard hv h.states ht
    refine ⟨.ok b.decision, { b with gossip := none }, next, rfl, ?_, ?_, hnext⟩
    · have hlen := hnext.length_eq
      rw [(tick_parameters ht).2, h.states.length_eq] at hlen
      exact hlen.symm
    · exact ⟨hb.bound, hb.memory, hb.baseline, hb.feelings, hb.levels, hb.expectation, hb.workingMemory,
        hb.context, hb.seed, hb.consolidator, hb.accumulator, hb.overBudget⟩

theorem Whole.resetAct (h : Whole c shared a states) (hv : Sees p.layers a.handles states) :
    Upholds c shared Agent.resetAct a p states := by
  unfold Upholds Agent.resetAct
  simp only [Agent.reset, reset_eq hv]
  refine ⟨.ok (), _, states.map CellState.reset, rfl, List.length_map _, ?_, statesFit_reset h.states⟩
  have hs := h.sound
  have hinitial : (Attention.initial a.profile.archetype).levels.size = channelCount := by
    simp [Attention.initial]
  refine ⟨hs.bound, ?_, hs.baseline, ?_, hinitial, Array.size_replicate, Array.size_replicate,
    Array.size_replicate.trans hs.context, hs.seed, hs.consolidator, ?_, rfl⟩
  · simp only [hs.memory.clear]
    exact Memory.fits_empty _
  · simp only [Affect.reset, hs.baseline]
    exact a.profile.archetype.size_baseline
  · simp only [hs.accumulator.reset]
    exact Accumulator.fits_ofCount _

theorem Whole.shiftAct (h : Whole c shared a states) (hv : Sees p.layers a.handles states)
    (change : Float32) : Upholds c shared (Agent.shiftAct change) a p states := by
  have hs := h.sound
  have hframe := Affect.SameFrame.shift a.affect change
  refine ⟨_, a.shiftRelationship change, states, by rw [put_of_sees hv, Agent.shiftAct], rfl, ?_, h.states⟩
  exact ⟨hs.bound, hs.memory, hframe.baseline.trans hs.baseline, hframe.size.trans hs.feelings, hs.levels,
    hs.expectation, hs.workingMemory, hs.context, hs.seed, hs.consolidator, hs.accumulator, hs.overBudget⟩

/-- Parameters of its own do an agent good, as long as they have the shape of the shared ones. -/
theorem Whole.adapt (h : Whole c shared a states) {stack₀ stack : Stack} (hc₀ : a.controller = some stack₀)
    (hfits : stack.Fits shared) :
    Whole c shared { a with controller := some stack, binding := .perAgent } states := by
  have hs := h.sound
  have hstates := h.states
  obtain ⟨hattached, hfits₀⟩ := hs.bound.fits hc₀
  have hcount : countOf a.controller = countOf (some stack) := by
    rw [hc₀]
    exact hfits₀.parameterCount.trans hfits.parameterCount.symm
  have hconsolidator := hs.consolidator
  have haccumulator := hs.accumulator
  rw [hcount] at hconsolidator haccumulator
  refine ⟨⟨⟨?_, (nomatch ·), fun _ => ⟨stack, rfl, hfits⟩, (nomatch ·), ?_⟩, hs.memory, hs.baseline,
    hs.feelings, hs.levels, hs.expectation, hs.workingMemory, hs.context, hs.seed, hconsolidator,
    haccumulator, hs.overBudget⟩, ?_⟩
  · have haffordable := hs.bound.affordable
    rw [initialController, if_neg hattached] at haffordable
    exact haffordable
  · have hsize := hs.bound.outputSize
    rw [hc₀] at hsize
    exact hsize.trans ((hfits₀.outputSize _).trans (hfits.outputSize _).symm)
  · rw [hc₀] at hstates
    have hsizes : stack₀.hiddenSizes = stack.hiddenSizes := hfits₀.hiddenSizes.trans hfits.hiddenSizes.symm
    unfold StatesFit at hstates ⊢
    simp only [Option.map_some, Option.getD_some] at hstates ⊢
    rw [← hsizes]
    exact hstates

theorem Whole.applyUpdates (h : Whole c shared a states) {stack : Stack} (hc : a.controller = some stack)
    (updates : List (Nat × Float32)) : Whole c shared (a.applyUpdates stack updates) states := by
  obtain ⟨hattached, hfits⟩ := h.sound.bound.fits hc
  have hown : (if a.binding = .shared then .perAgent else a.binding) = Binding.perAgent := by
    cases hb : a.binding with
    | detached => exact absurd hb hattached
    | _ => rfl
  unfold Agent.applyUpdates
  split
  · exact h
  · rw [hown]
    exact h.adapt hc (hfits.addAll updates)

theorem Whole.reinforceAct (h : Whole c shared a states) (hv : Sees p.layers a.handles states)
    (reward : Float32) : Upholds c shared (Agent.reinforceAct c reward) a p states := by
  unfold Upholds Agent.reinforceAct
  cases hr : a.reinforce p c reward with
  | error e => exact ⟨.error e, a, states, by rw [put_of_sees hv], rfl, h⟩
  | ok r =>
    obtain ⟨report, b⟩ := r
    refine ⟨.ok report, b, states, by rw [put_of_sees hv], rfl, ?_⟩
    unfold Agent.reinforce at hr
    split at hr
    · cases hr
    · next stack hc =>
      obtain ⟨rewards, -, hr⟩ := ok_of_bind hr
      obtain ⟨pulls, -, hr⟩ := ok_of_bind hr
      obtain ⟨_, -, hr⟩ := ok_of_bind hr
      cases hr
      exact h.applyUpdates hc _

theorem statesFit_initial (binding : Binding) (shared : Stack) :
    StatesFit (initialController binding shared) (initialStates binding shared) := by
  unfold StatesFit initialController initialStates
  split
  · exact .nil
  · refine List.forall₂_map_left_iff.mpr (List.forall₂_map_right_iff.mpr ?_)
    exact List.forall₂_same.mpr fun cell _ => ⟨Array.size_replicate, Array.size_replicate⟩

/-- A new agent is sound. -/
theorem whole_of_assemble {profile : Profile} {binding : Binding} {handles : List Handle} {left : Budget}
    (hshared : shared.Fits shared) (haffordable : Affordable c (initialController binding shared))
    (h : assemble profile binding (initialController binding shared) handles left c = .ok a) :
    Whole c shared a (initialStates binding shared) := by
  obtain ⟨budget, memory, consolidator, hmemory, hconsolidator, rfl⟩ := assemble_cases h
  have hlevels : (Attention.initial profile.archetype).levels.size = channelCount := by
    simp [Attention.initial]
  refine ⟨⟨⟨haffordable, ?_, ?_, ?_, rfl⟩, ?_, rfl, profile.archetype.size_baseline, hlevels,
    Array.size_replicate, Array.size_replicate, Array.size_replicate, rfl,
    Consolidator.fits_ofConfig hconsolidator, Accumulator.fits_ofCount _, rfl⟩, ?_⟩
  · exact fun hb => if_pos hb
  · exact fun hb => ⟨shared, if_neg hb, hshared⟩
  · rintro (rfl : binding = .shared)
    rfl
  · simp only [Memory.eq_empty_of_ofConfig hmemory]
    exact Memory.fits_empty _
  · exact statesFit_initial binding shared

end Agent

end NpcMind
