import NpcMind.Proofs.Order
import NpcMind.Proofs.Readiness
import NpcMind.Proofs.Resume
import NpcMind.Proofs.Writes

/-!
# Ticks that cannot fail

As long as numbers that are not finite are repaired, no step inside a tick fails, whatever is sensed: the
memories are read, the controller makes its step, and what is worth it is written and sampled. An agent acts
by reflex only if it has no controller or if its states were not finite when the tick began, and it leaves
every tick with states that are. All this rests on buffers for what the memories hold. A memory so wide that
filling up a row goes past `2 ^ 64` has none, and then every tick fails.
-/

namespace NpcMind

open StatePools Outcome

/-! ### Channels -/

namespace Senses

theorem size_fillRegion {r : Region} {xs : Vec} (h : xs.size ≤ r.stop - r.start) :
    (fillRegion r xs).size = r.stop - r.start := by
  have hzeros : (Vec.zeros (r.stop - r.start - xs.size)).size = r.stop - r.start - xs.size :=
    Array.size_replicate
  rw [fillRegion, Array.size_append, hzeros]
  omega

theorem size_visionChannels (s : Senses) : s.visionChannels.size = 256 := by simp [visionChannels, visionSide]

theorem size_audioChannels (s : Senses) : s.audioChannels.size = 32 := by simp [audioChannels, audioBins]

theorem size_social (s : Senses) (e : Encounter) (p : Percept) :
    (fillRegion .social (s.socialSignals e p)).size = 32 := by
  refine size_fillRegion (r := .social) ?_
  show 14 ≤ 32
  omega

theorem size_internal (s : Senses) (affect : Vec) :
    (fillRegion .internal (s.needs ++ affect.extract 0 Emotion.basicCount)).size = 32 := by
  refine size_fillRegion (r := .internal) ?_
  have hneeds : s.needs.size = 4 := rfl
  rw [Array.size_append, Array.size_extract, hneeds]
  show 4 + (min 8 affect.size - 0) ≤ 32
  omega

theorem size_context (s : Senses) (p : Percept) : (fillRegion .context (s.situation p)).size = 160 := by
  refine size_fillRegion (r := .context) ?_
  show 6 ≤ 160
  omega

theorem size_channels (s : Senses) (e : Encounter) (a : Archetype) (affect : Vec) :
    (s.channels e a affect).size = channelCount := by
  simp only [channels, Array.size_append, Array.size_map, size_visionChannels, size_audioChannels, size_social,
    size_internal, size_context]
  rfl

end Senses

namespace Agent

variable {c : Config} {shared : Stack} {a b : Agent} {env : Surroundings} {p q : StatePools}
  {states next : List CellState} {query attended : Vec}

/-! ### Sensing and recalling -/

theorem Formed.attend (h : a.Formed c shared) (t : Config.Temper) (s : Senses) (e : Encounter) :
    (a.attend t s e).2.Formed c shared ∧ (a.attend t s e).1.size = channelCount := by
  unfold Agent.attend
  refine ⟨{ h with
    levels := Array.size_mapIdx.trans h.levels
    workingMemory := Array.size_mapIdx.trans h.workingMemory }, ?_⟩
  simp only [Attention.attend, Attention.update, Array.size_zipWith, Array.size_mapIdx, h.levels,
    Senses.size_channels, Nat.min_self]

theorem Formed.query_ok (h : a.Formed c shared) (hc : c.Steady shared) (attended : Vec) :
    ∃ query, a.query attended = .ok query ∧ query.size = c.memory.width := by
  have hwidth : a.memory.width = c.memory.width := congrArg Config.Memory.width h.memory.config
  have hsensed : sensedWidth ≤ c.memory.width := Nat.le_trans (by decide) hc.experience
  obtain ⟨query, hquery⟩ : ∃ query, a.query attended = .ok query := by
    simp only [Agent.query, hwidth, hc.vectorSize_width, requireWithin_ok hsensed, bind, Except.bind]
    exact ⟨_, rfl⟩
  exact ⟨query, hquery, (size_query h.memory h.feelings hquery).trans hc.vectorSize_width⟩

theorem Formed.isBacked (h : a.Formed c shared) (hc : c.Steady shared) : a.memory.isBacked = true :=
  (Memory.isBacked_iff h.memory).mpr (.inr hc.memory)

theorem Formed.read_ok (h : a.Formed c shared) (hc : c.Steady shared) (k : Backend)
    (hq : query.size = c.memory.width) : ∃ found, a.memory.read k query query.size = .ok found :=
  h.memory.read_ok (h.isBacked hc) k hq

theorem board_read_ok (hc : c.Steady shared) {board : Board} (hb : Society.BoardFits c (some board)) (k : Backend)
    (hq : query.size = c.memory.width) : ∃ found, board.read k query query.size = .ok found := by
  have hslots : 0 < c.limits.gossipSlots := hb.configured.mp rfl
  have hfits := (hb.fits board rfl).memory
  refine hfits.read_ok ((Memory.isBacked_iff hfits).mpr (.inr ?_)) k hq
  exact hc.board.resolve_left (by omega)

theorem Formed.recollect_ok (h : a.Formed c shared) (hc : c.Steady shared)
    (hboard : Society.BoardFits c env.board) (hq : query.size = c.memory.width) :
    ∃ context, a.recollect env query = .ok context ∧ context.size = c.memory.width := by
  obtain ⟨context, hcontext⟩ : ∃ context, a.recollect env query = .ok context := by
    obtain ⟨found, hfound⟩ := h.read_ok hc env.backend hq
    simp only [recollect, recallOwn, hfound, tolerate, bind, Except.bind]
    unfold recallGossip
    cases hb : env.board with
    | none => exact ⟨_, rfl⟩
    | some board =>
      rw [hb] at hboard
      obtain ⟨told, htold⟩ := board_read_ok hc hboard env.backend hq
      simp only [htold, tolerate, bind, Except.bind]
      exact ⟨_, rfl⟩
  have hwidth := hc.vectorSize_width
  refine ⟨context, hcontext, (size_recollect h.memory (h.context.trans hwidth.symm) (fun board hb => ?_)
    (hq.trans hwidth.symm) hcontext).trans hwidth⟩
  exact ⟨c.boardMemory, c.limits.gossipThreshold, hboard.fits board hb, rfl⟩

/-- The agent after sensing the scene and recalling `context`. -/
def mindful (a : Agent) (env : Surroundings) (s : Senses) (e : Encounter) (context : Vec) : Agent :=
  { (a.attend env.config.temper s e).2 with longTermContext := context }

theorem tick_eq (a : Agent) (env : Surroundings) (p : StatePools) (s : Senses) (e : Encounter)
    (dt : Float32) : a.tick env p s e dt = do
      let query ← (a.attend env.config.temper s e).2.query (a.attend env.config.temper s e).1
      let context ← (a.attend env.config.temper s e).2.recollect env query
      let (b, p) ← (a.mindful env s e context).decide env p (a.attend env.config.temper s e).1 (s.percept e) e
      let b ← (b.feel env.config.temper s e dt).remember p env.config env.taskId query
      return (b.express e, p) := rfl

/-! ### Deciding -/

theorem controllerInputWidth_eq (h : c.memory.width < UInt64.size / 4) :
    controllerInputWidth c.memory.width =
      channelCount + workingMemorySize + c.memory.width + Emotion.count ∧
    controllerInputWidth c.memory.width < UInt64.size / 2 := by
  have hsmall : channelCount + workingMemorySize + Emotion.count ≤ 1024 := by decide
  have hsize : UInt64.size = 18446744073709551616 := rfl
  have hwrap : controllerInputWidth c.memory.width =
      channelCount + workingMemorySize + c.memory.width + Emotion.count :=
    Nat.mod_eq_of_lt (by omega)
  exact ⟨hwrap, by omega⟩

theorem Formed.size_controllerInput (h : a.Formed c shared) (ha : attended.size = channelCount) :
    (a.controllerInput attended).size = controllerInputWidth c.memory.width := by
  rw [(controllerInputWidth_eq h.room).1]
  simp only [controllerInput, Array.size_append, ha, h.workingMemory, h.context, h.feelings]

theorem Formed.chained (h : a.Formed c shared) (hc : c.Steady shared) {stack : Stack}
    (hs : a.controller = some stack) : Stack.Chained (controllerInputWidth c.memory.width) stack.layers :=
  (Stack.chained_ofConfig (controllerInputWidth_eq h.room).2 hc.stack).of_fits (h.equipped.fits stack hs).layers

theorem depth_of_statesFit (h : StatesFit a.controller states) (hv : Sees p.layers a.handles states)
    {stack : Stack} (hs : a.controller = some stack) : stack.layers.length = a.handles.length := by
  have hlen := h.length_eq
  rw [hs] at hlen
  rw [← hv.length_eq, ← hlen]
  exact (List.length_map _).symm

theorem Ready.depth (h : Ready c shared a states) (hv : Sees p.layers a.handles states) {stack : Stack}
    (hs : a.controller = some stack) : stack.layers.length = a.handles.length :=
  depth_of_statesFit h.states hv hs

theorem Ready.forward (h : Ready c shared a states) (hc : c.Steady shared)
    (hv : Sees p.layers a.handles states) (ha : attended.size = channelCount) {stack : Stack}
    (hs : a.controller = some stack) (k : Backend) :
    ∃ n out next, stack.forward k .sanitize p a.handles (a.controllerInput attended) c.controller.outputMode
        a.outputSize = (.ok (n, out), p.put a.handles next) ∧
      StatesFit a.controller next ∧ (∀ t ∈ next, t.isFinite = true) ∧
      Config.readoutWidth ≤ (out.extract (out.size - stack.finalSize) out.size).size ∧
      ∀ x ∈ out.extract (out.size - stack.finalSize) out.size, x.isFinite = true := by
  have hchained := h.formed.chained hc hs
  rw [← h.formed.size_controllerInput ha] at hchained
  obtain ⟨n, out, next, hforward, hnext, hfinite, hsize, hout⟩ :=
    Stack.forward_sanitize k hv (h.depth hv hs) hchained (h.formed.equipped.outputSize stack hs)
  refine ⟨n, out, next, hforward, ?_, hfinite, ?_, fun x hx => ?_⟩
  · rw [hs]
    exact hnext
  · have hle := stack.finalSize_le_outputSize c.controller.outputMode
    have hreadout := hc.readout
    have hfinal : stack.finalSize = shared.finalSize := by
      rw [Stack.finalSize_eq, Stack.finalSize_eq, (h.formed.equipped.fits stack hs).hiddenSizes]
    rw [Array.size_extract]
    omega
  · obtain ⟨k, _, rfl⟩ := Array.mem_extract_iff_getElem.mp hx
    exact hout _ (Array.getElem_mem _)

/-- A signal that is made from a finite number lies between 0 and 1. -/
theorem toUnit_nonneg {x : Float32} (hx : x.isFinite = true) : 0 ≤ Choice.toUnit x := by
  have hsum : (x + 1).isNaN = false := Single.isNaN_add (Single.isNaN_of_isFinite hx) rfl
  obtain ⟨s, m, e, hm, hfinite⟩ : ∃ s m e hm, (0.5 : Float32).toModel.unpack = .finite s m e hm :=
    ⟨_, _, _, by decide, rfl⟩
  have hhalf : ((x + 1) * 0.5).isNaN = false := Single.isNaN_mul_of_finite hsum hfinite
  exact (Single.clamp_mem (by decide) hhalf).1

theorem choose_ok {readout : Vec} (h : Config.readoutWidth ≤ readout.size)
    (hfinite : ∀ x ∈ readout, x.isFinite = true) (company : Bool) :
    ∃ b, a.choose c readout company = .ok b ∧ b.decision.degraded = false ∧ 0 ≤ b.decision.memoryWriteSignal := by
  have hcount : Action.count ≤ readout.size := Nat.le_trans (by decide) h
  have hplace : Action.count + 3 < readout.size := Nat.lt_of_lt_of_le (by decide) h
  simp only [choose, Choice.distribution, Choice.signals, requireWithin_ok h, requireWithin_ok hcount, bind,
    Except.bind]
  refine ⟨_, rfl, rfl, toUnit_nonneg ?_⟩
  rw [Array.getD_eq_getD_getElem?, Array.getElem?_eq_getElem hplace]
  exact hfinite _ (Array.getElem_mem hplace)

/-- Some state is not finite. -/
def Upset (states : List CellState) : Prop := ∃ t ∈ states, t.isFinite = false

theorem upset_iff : Upset states ↔ ¬ states.all CellState.isFinite = true := by
  simp [Upset]

/-- **An agent always comes to a decision**, and its states are finite then. -/
theorem Ready.decide (h : Ready c shared a states) (hc : c.Steady shared) (henv : env.config = c)
    (hguard : env.guard = .sanitize) (hv : Sees p.layers a.handles states)
    (ha : attended.size = channelCount) (percept : Percept) (e : Encounter) :
    ∃ b next, a.decide env p attended percept e = .ok (b, p.put a.handles next) ∧
      StatesFit a.controller next ∧ (∀ t ∈ next, t.isFinite = true) ∧
      (b.decision.degraded = true ↔ a.binding = .detached ∨ Upset states) ∧
      (b.decision.degraded = false → 0 ≤ b.decision.memoryWriteSignal) := by
  cases hs : a.controller with
  | none =>
    have hnone : states = [] := by
      have hstates := h.states
      rw [hs] at hstates
      cases hstates
      rfl
    subst hnone
    refine ⟨a.actByReflex percept e, [], ?_, .nil, (fun t ht => nomatch ht), ?_, Bool.noConfusion⟩
    · simp only [Agent.decide, hs, put_of_sees hv]
      rfl
    · exact ⟨fun _ => .inl (h.formed.equipped.detached.mpr hs), fun _ => rfl⟩
  | some stack =>
    have hattached : ¬ a.binding = .detached := h.formed.equipped.attached hs
    rw [← hs]
    simp only [hattached, false_or, upset_iff]
    by_cases hfinite : states.all CellState.isFinite = true
    · obtain ⟨n, out, next, hforward, hnext, hall, hreadout, hout⟩ := h.forward hc hv ha hs env.backend
      obtain ⟨b, hb, hdegraded, hsignal⟩ := choose_ok (a := a) (c := c) hreadout hout (percept.hasInterlocutor e)
      refine ⟨b, next, ?_, hnext, hall, by simp [hdegraded, hfinite], fun _ => hsignal⟩
      rw [← henv] at hforward hb
      simp only [Agent.decide, hs, isFinite_eq hv, hfinite, if_true, hguard, hforward, hb, bind, Except.bind]
      rfl
    · refine ⟨a.actByReflex percept e, states.map CellState.reset, ?_, statesFit_reset h.states, ?_, ?_,
        Bool.noConfusion⟩
      · simp only [Agent.decide, hs, isFinite_eq hv, hfinite, reset_eq hv]
        rfl
      · intro t ht
        obtain ⟨t₀, -, rfl⟩ := List.mem_map.mp ht
        exact t₀.isFinite_reset
      · exact ⟨fun _ => hfinite, fun _ => rfl⟩

theorem Ready.decided (h : Ready c shared a states) (hnext : StatesFit a.controller next) {percept : Percept}
    {e : Encounter} (hd : a.decide env p attended percept e = .ok (b, q)) :
    Ready c shared b next ∧ b.handles = a.handles ∧ b.binding = a.binding := by
  obtain ⟨_, _, _, rfl, -⟩ := decide_eq hd
  exact ⟨⟨{ h.formed with }, hnext⟩, rfl, rfl⟩

/-! ### Remembering -/

theorem Formed.experience_ok (h : a.Formed c shared) (hc : c.Steady shared)
    (hq : query.size = c.memory.width) :
    ∃ experience, a.experience query = .ok experience ∧ experience.size = c.memory.width := by
  have hwidth : a.memory.width = c.memory.width := congrArg Config.Memory.width h.memory.config
  have hroom : Config.experienceWidth ≤ c.memory.width := hc.experience
  simp only [Agent.experience, hwidth, requireWithin_ok hroom, bind, Except.bind]
  refine ⟨_, rfl, ?_⟩
  simp only [Array.size_append, Array.size_extract, Array.size_map, Array.size_range, hq, Vec.zeros,
    Array.size_replicate]
  -- Sensed, done, changed and sure: the parts of an experience.
  show min 24 c.memory.width - 0 + 21 + 8 + 1 + (c.memory.width - 54) = c.memory.width
  have hroom : 54 ≤ c.memory.width := hroom
  omega

theorem Ready.policyGradient_ok (h : Ready c shared a states) (hc : c.Steady shared)
    (hv : Sees p.layers a.handles states) {stack : Stack} (hs : a.controller = some stack)
    (logitScale : Float32) : ∃ gradient, a.policyGradient p logitScale = .ok gradient := by
  have hne : stack.layers ≠ [] := by
    intro hnil
    have hreadout := hc.readout
    rw [Stack.finalSize_eq, ← (h.formed.equipped.fits stack hs).hiddenSizes, Stack.hiddenSizes, hnil] at hreadout
    cases hreadout
  simp only [Agent.policyGradient, hs]
  exact Stack.finalGradient_ok hv (h.depth hv hs) hne _

theorem Formed.remember (h : a.Formed c shared) (hc : c.Steady shared) (p : StatePools) (taskId : Uuid)
    (hq : query.size = c.memory.width) :
    ∃ b, a.remember p c taskId query = .ok b ∧ b.Formed c shared ∧
      b.decision.degraded = a.decision.degraded ∧
      (c.Retentive → a.decision.degraded = false → 0 ≤ a.decision.memoryWriteSignal →
        b.decision.memoryWritten = true) := by
  have hforgo : a.forgo.Formed c shared := { h with }
  unfold Agent.remember
  dsimp only
  split
  · next hnot =>
    refine ⟨a.forgo, rfl, hforgo, rfl, fun hretentive hown hsignal => ?_⟩
    have hstrong : a.decision.memoryWriteSignal > c.temper.writeThreshold :=
      Single.lt_of_lt_of_le hretentive.threshold hsignal
    rw [hown, decide_eq_true hstrong] at hnot
    cases hnot
  · obtain ⟨experience, hexperience, hsize⟩ := h.experience_ok hc hq
    obtain ⟨stored, memory, hwrite⟩ :=
      h.memory.write_ok (h.isBacked hc) hsize (a.decision.memoryWriteSignal * a.attention.novelty)
    simp only [hexperience, bind, Except.bind, hwrite, tolerate]
    cases stored with
    | none =>
      refine ⟨a.forgo, rfl, hforgo, rfl, fun hretentive _ _ => ?_⟩
      obtain ⟨_, _, hsome⟩ := h.memory.write_some (h.isBacked hc) hretentive.slots hsize
        (a.decision.memoryWriteSignal * a.attention.novelty)
      rw [hwrite] at hsome
      cases hsome
    | some place =>
      obtain ⟨_, _, _, _, hlearn⟩ := a.learn_eq_note p c taskId memory experience a.decision.memoryWriteSignal
      refine ⟨_, rfl, ?_, ?_, fun _ _ _ => ?_⟩
      · rw [hlearn]
        exact { h with memory := h.memory.write hwrite }
      · rw [hlearn]
        rfl
      · rw [hlearn]
        rfl

/-! ### All stages -/

theorem Formed.feel (h : a.Formed c shared) (t : Config.Temper) (s : Senses) (e : Encounter) (dt : Float32) :
    (a.feel t s e dt).Formed c shared := by
  have hframe := Affect.SameFrame.feel a.affect a.profile.archetype
    (Stimulus.ofScene s e (s.percept e).combat) t.affectRetention dt
  unfold Agent.feel
  exact ⟨h.equipped, h.memory, (congrArg Array.size hframe.baseline).trans h.baseline,
    hframe.size.trans h.feelings, h.levels, h.workingMemory, h.context, h.room⟩

theorem Formed.express (h : a.Formed c shared) (e : Encounter) : (a.express e).Formed c shared := by
  unfold Agent.express
  exact { h with }

theorem degraded_express (a : Agent) (e : Encounter) :
    (a.express e).decision.degraded = a.decision.degraded := by
  obtain ⟨speech, hspeech⟩ := compose_eq _ _ _
  exact (congrArg Decision.degraded hspeech).trans rfl

theorem written_express (a : Agent) (e : Encounter) :
    (a.express e).decision.memoryWritten = a.decision.memoryWritten := by
  obtain ⟨speech, hspeech⟩ := compose_eq _ _ _
  exact (congrArg Decision.memoryWritten hspeech).trans rfl

/-- The gradient is that of the choice, whatever was felt and written since. -/
theorem policyGradient_note (a : Agent) (p : StatePools) (t : Config.Temper) (s : Senses) (e : Encounter)
    (dt : Float32) (memory : Memory) (experience : Vec) (importance logitScale : Float32) :
    ((a.feel t s e dt).note memory experience importance).policyGradient p logitScale =
      a.policyGradient p logitScale := by
  obtain ⟨affect, hfelt⟩ := a.feel_eq t s e dt
  rw [hfelt]
  rfl

/-- What it takes for no step inside a tick to fail: the query is made, the memory and the board answer it, the
controller makes its step, and, once the agent has decided and felt, its experience is written and the
gradient of its choice is there to be sampled. -/
structure Unhindered (env : Surroundings) (p : StatePools) (s : Senses) (e : Encounter) (dt : Float32)
    (a : Agent) (query context : Vec) : Prop where
  asked : (a.attend env.config.temper s e).2.query (a.attend env.config.temper s e).1 = .ok query
  recalled : (a.attend env.config.temper s e).2.recollect env query = .ok context
  memory : ∃ found, a.memory.read env.backend query query.size = .ok found
  board : ∀ board, env.board = some board → ∃ found, board.read env.backend query query.size = .ok found
  controller : ∀ stack, a.controller = some stack → ∃ out q,
    stack.forward env.backend env.guard p a.handles
      ((a.mindful env s e context).controllerInput (a.attend env.config.temper s e).1)
      env.config.controller.outputMode a.outputSize = (.ok out, q)
  products : ∀ stack, a.controller = some stack → ∀ cell ∈ stack.layers, ∀ intake : Vec,
    intake.size = cell.inputSize + cell.hiddenSize → ∃ sums,
      Kernel.matvec env.backend cell.weights intake (4 * cell.hiddenSize) = .ok sums
  decision : ∃ b q, (a.mindful env s e context).decide env p (a.attend env.config.temper s e).1 (s.percept e) e =
    .ok (b, q) ∧ ∃ experience stored memory, (b.feel env.config.temper s e dt).experience query = .ok experience ∧
      b.memory.write experience (b.decision.memoryWriteSignal * b.attention.novelty) = .ok (stored, memory) ∧
      (a.binding ≠ .detached → ∃ gradient,
        ((b.feel env.config.temper s e dt).note memory experience b.decision.memoryWriteSignal).policyGradient q
          env.config.controller.logitScale = .ok gradient)

theorem Ready.mindful {context : Vec} (h : Ready c shared a states) (env : Surroundings) (s : Senses) (e : Encounter)
    (hcontext : context.size = c.memory.width) : Ready c shared (a.mindful env s e context) states :=
  ⟨{ (h.formed.attend env.config.temper s e).1 with context := hcontext }, h.states⟩

/-- **No step inside a tick fails.** -/
theorem Ready.unhindered (h : Ready c shared a states) (hc : c.Steady shared) (henv : env.config = c)
    (hguard : env.guard = .sanitize) (hboard : Society.BoardFits c env.board)
    (hv : Sees p.layers a.handles states) (s : Senses) (e : Encounter) (dt : Float32) :
    ∃ query context, a.Unhindered env p s e dt query context := by
  subst henv
  obtain ⟨hattended, hsize⟩ := h.formed.attend env.config.temper s e
  obtain ⟨query, hquery, hq⟩ := hattended.query_ok hc (a.attend env.config.temper s e).1
  obtain ⟨context, hrecalled, hcontext⟩ := hattended.recollect_ok hc hboard hq
  have hmindful := h.mindful env s e hcontext
  have hv' : Sees p.layers (a.mindful env s e context).handles states := hv
  refine ⟨query, context, hquery, hrecalled, h.formed.read_ok hc env.backend hq, fun board hb => ?_, fun stack hs => ?_,
    fun stack hs cell hcell intake hi => ?_, ?_⟩
  · rw [hb] at hboard
    exact board_read_ok hc hboard env.backend hq
  · obtain ⟨n, out, next, hforward, -⟩ := hmindful.forward hc hv' hsize hs env.backend
    rw [hguard]
    exact ⟨_, _, hforward⟩
  · exact ⟨_, Stack.matvec_of_chained (h.formed.chained hc hs) (h.formed.equipped.fits stack hs) hcell _ hi⟩
  · obtain ⟨b, next, hdecide, hnext, -, -⟩ := hmindful.decide hc rfl hguard hv' hsize (s.percept e) e
    obtain ⟨hdecided, hhandles, hbinding⟩ := hmindful.decided hnext hdecide
    refine ⟨b, _, hdecide, ?_⟩
    obtain ⟨experience, hexperience, hlength⟩ :=
      (hdecided.formed.feel env.config.temper s e dt).experience_ok hc hq
    obtain ⟨stored, memory, hwrite⟩ :=
      hdecided.formed.memory.write_ok (hdecided.formed.isBacked hc) hlength
        (b.decision.memoryWriteSignal * b.attention.novelty)
    refine ⟨experience, stored, memory, hexperience, hwrite, fun hattached => ?_⟩
    cases hs : b.controller with
    | none =>
      rw [← hdecided.formed.equipped.detached, hbinding] at hs
      exact absurd hs hattached
    | some stack =>
      have hsees : Sees (p.put (a.mindful env s e context).handles next).layers b.handles next := by
        rw [hhandles]
        exact sees_putAll hv' (hnext.length_eq.symm.trans hmindful.states.length_eq)
      rw [policyGradient_note]
      exact hdecided.policyGradient_ok hc hsees hs _

/-- **A tick succeeds** and leaves the agent ready for the next one, with states that are finite. Where the
configuration is `Retentive`, the tick is remembered unless the agent acted by reflex. -/
theorem Ready.tick (h : Ready c shared a states) (hc : c.Steady shared) (henv : env.config = c)
    (hguard : env.guard = .sanitize) (hboard : Society.BoardFits c env.board)
    (hv : Sees p.layers a.handles states) (s : Senses) (e : Encounter) (dt : Float32) :
    ∃ b next, a.tick env p s e dt = .ok (b, p.put a.handles next) ∧ next.length = states.length ∧
      Ready c shared b next ∧ (∀ t ∈ next, t.isFinite = true) ∧
      (b.decision.degraded = true ↔ a.binding = .detached ∨ Upset states) ∧
      (c.Retentive → b.decision.degraded = false → b.decision.memoryWritten = true) := by
  subst henv
  obtain ⟨hattended, hsize⟩ := h.formed.attend env.config.temper s e
  obtain ⟨query, hquery, hq⟩ := hattended.query_ok hc (a.attend env.config.temper s e).1
  obtain ⟨context, hrecalled, hcontext⟩ := hattended.recollect_ok hc hboard hq
  have hmindful := h.mindful env s e hcontext
  have hhandles : (a.mindful env s e context).handles = a.handles := rfl
  have hbinding : (a.mindful env s e context).binding = a.binding := rfl
  rw [tick_eq]
  simp only [hquery, hrecalled, bind, Except.bind]
  generalize a.mindful env s e context = m at hmindful hhandles hbinding ⊢
  rw [← hhandles] at hv ⊢
  rw [← hbinding]
  obtain ⟨b, next, hdecide, hnext, hfinite, hdegraded, hsignal⟩ :=
    hmindful.decide hc rfl hguard hv hsize (s.percept e) e
  have hdecided := (hmindful.decided hnext hdecide).1
  have hfeels := hdecided.formed.feel env.config.temper s e dt
  obtain ⟨affect, hfelt⟩ := b.feel_eq env.config.temper s e dt
  rw [hfelt] at hfeels
  obtain ⟨b', hremember, hformed, hsame, hwritten⟩ := hfeels.remember hc (p.put m.handles next) env.taskId hq
  have hcontroller : b'.controller = b.controller := (remember_parameters hremember).2
  have hready : Ready env.config shared (b'.express e) next := by
    refine ⟨hformed.express e, ?_⟩
    have hstates := hdecided.states
    rw [← hcontroller] at hstates
    exact hstates
  simp only [hdecide, hfelt, hremember]
  refine ⟨b'.express e, next, rfl, hnext.length_eq.symm.trans hmindful.states.length_eq, hready, hfinite, ?_, ?_⟩
  · rw [degraded_express, hsame]
    exact hdegraded
  · intro hretentive hown
    rw [degraded_express, hsame] at hown
    rw [written_express]
    exact hwritten hretentive hown (hsignal hown)

/-! ### Whatever happens between ticks -/

theorem Ready.untold (h : Ready c shared a states) : Ready c shared { a with gossip := none } states :=
  ⟨{ h.formed with }, h.states⟩

theorem lasting_ready (hc : c.Steady shared) : Lasting c (Society.BoardFits c) (Ready c shared) where
  tick s e dt henv hguard hboard h hv := by
    obtain ⟨b, next, htick, hlen, hready, -⟩ := h.tick hc henv (hguard.trans hc.guard) hboard hv s e dt
    exact retains_tick htick hlen hready.untold
  reset h := h.renewed
  reinforce h hr := h.reinforce hr
  shift change h := h.shift change

theorem inborn_ready (hc : c.Steady shared) : Inborn c shared (Ready c shared) where
  spawned h := ready_of_assemble hc h
  resumed h hv hr hlen := h.restore hc hv hr hlen

/-- An agent that decides on its own the next time: it has a controller, and states that are finite. -/
structure Sane (c : Config) (shared : Stack) (a : Agent) (states : List CellState) : Prop where
  ready : Ready c shared a states
  attached : a.binding ≠ .detached
  finite : ∀ t ∈ states, t.isFinite = true

theorem lasting_sane (hc : c.Steady shared) : Lasting c (Society.BoardFits c) (Sane c shared) where
  tick {env a p states} s e dt henv hguard hboard h hv := by
    obtain ⟨b, next, htick, hlen, hready, hfinite, -⟩ :=
      h.ready.tick hc henv (hguard.trans hc.guard) hboard hv s e dt
    have hattached : ¬ b.binding = .detached := by
      rw [(tick_keeps hv htick).attached]
      exact h.attached
    exact retains_tick htick hlen ⟨hready.untold, hattached, hfinite⟩
  reset {a states} h := by
    refine ⟨h.ready.renewed, h.attached, fun t ht => ?_⟩
    obtain ⟨t₀, -, rfl⟩ := List.mem_map.mp ht
    exact t₀.isFinite_reset
  reinforce h hr := by
    refine ⟨h.ready.reinforce hr, ?_, h.finite⟩
    rw [ne_eq, (reinforce_keeps hr).attached]
    exact h.attached
  shift change h := ⟨h.ready.shift change, h.attached, h.finite⟩

/-! ### Memories without a buffer -/

/-- A memory so wide that its stride is zero leaves no room for a query. -/
theorem tick_narrow (h : vectorSize a.memory.width < sensedWidth) (env : Surroundings) (p : StatePools)
    (s : Senses) (e : Encounter) (dt : Float32) : a.tick env p s e dt = .error .outOfBounds := by
  have hquery (attended : Vec) : (a.attend env.config.temper s e).2.query attended = .error .outOfBounds := by
    have hwithin : requireWithin sensedWidth (vectorSize a.memory.width) = .error .outOfBounds :=
      if_neg (Nat.not_le.mpr h)
    show requireWithin sensedWidth (vectorSize a.memory.width) >>= _ = _
    rw [hwithin]
    rfl
  rw [tick_eq, hquery]
  rfl

theorem vectorSize_of_wrapped {width : Nat} (hsize : width < UInt64.size) (h : paddedStride width < width) :
    vectorSize width = 0 := by
  have hword : UInt64.size = 18446744073709551616 := rfl
  have hstride : paddedStride width = (width + 7) / 8 * 8 % 18446744073709551616 := rfl
  rw [vectorSize, Nat.min_eq_right (Nat.le_of_lt h)]
  omega

theorem reinforce_memory {reward : Float32} {report : PenaltyReport Float32}
    (h : a.reinforce p c reward = .ok (report, b)) : b.memory = a.memory := by
  unfold Agent.reinforce at h
  split at h
  · cases h
  · obtain ⟨_, -, h⟩ := ok_of_bind h
    obtain ⟨_, -, h⟩ := ok_of_bind h
    obtain ⟨_, -, h⟩ := ok_of_bind h
    cases h
    unfold Agent.applyUpdates
    split <;> rfl

/-- Where no tick succeeds, a memory keeps its configuration whatever happens. -/
theorem lasting_narrow (hc : vectorSize c.memory.width < sensedWidth) :
    Lasting c (fun _ => True) fun a _ => a.memory.config = c.memory where
  tick {env a p states} s e dt _ _ _ h hv := by
    have hnarrow : vectorSize a.memory.width < sensedWidth := by
      rw [Memory.width, h]
      exact hc
    refine ⟨.error .outOfBounds, a, states, ?_, rfl, h⟩
    simp only [tickAct, tick_narrow hnarrow, put_of_sees hv]
  reset h := h
  reinforce h hr := (congrArg Memory.config (reinforce_memory hr)).trans h
  shift _ h := h

theorem inborn_narrow : Inborn c shared fun a _ => a.memory.config = c.memory where
  spawned h := by
    obtain ⟨budget, memory, consolidator, hmemory, -, rfl⟩ := assemble_cases h
    simp only [Memory.eq_empty_of_ofConfig hmemory]
    rfl
  resumed h hv hr _ := by
    obtain ⟨b, _, -, ht, -, hrecords, -⟩ := of_restore hv hr
    obtain ⟨memory, _, _, hm, -, -, rfl⟩ := of_takeRecords hrecords
    have hconfig : memory.config = b.memory.config := (Memory.shape_of_restore hm).2.2
    refine hconfig.trans ?_
    rcases takeParameters_cases ht with ⟨-, rfl⟩ | ⟨_, _, _, -, -, -, rfl⟩ <;> exact h

end Agent

namespace Society

variable {c : Config} {w : Society} {id : Uuid} {a : Agent} {states : List CellState}

/-- A tick of an agent succeeds, and so does every step inside it. The agent acts by reflex exactly if it has
no controller or some value that its states carry is not finite. Afterwards all of them are finite, so that an
agent with a controller decides on its own the next time, whatever happens until then. -/
structure TicksSteadily (w : Society) (id : Uuid) (a : Agent) (states : List CellState) (s : Senses)
    (e : Encounter) (dt : Float32) (taskId : Uuid) : Prop where
  unhindered : ∃ query context, a.Unhindered (w.surroundings taskId) w.pools s e dt query context
  decides : ∃ d, (w.tick id s e dt taskId).1 = .ok d ∧
    (d.degraded = true ↔ a.binding = .detached ∨ ∃ t ∈ states, ∃ x ∈ t.carried, x.isFinite = false)
  finite : ∃ b next, (w.tick id s e dt taskId).2.Holds id b next ∧ ∀ t ∈ next, ∀ x ∈ t.carried, x.isFinite = true
  recovers : a.binding ≠ .detached → ∀ requests, (∀ r ∈ requests, r.removes id = false) → ∀ s' e' dt' taskId',
    ∃ d, (((w.tick id s e dt taskId).2.serveAll requests).tick id s' e' dt' taskId').1 = .ok d ∧ d.degraded = false

theorem upset_iff_carried : Agent.Upset states ↔ ∃ t ∈ states, ∃ x ∈ t.carried, x.isFinite = false := by
  have hstate (t : CellState) : t.isFinite = false ↔ ∃ x ∈ t.carried, x.isFinite = false := by
    rw [← Bool.not_eq_true, CellState.isFinite_iff]
    simp
  simp only [Agent.Upset, hstate]

end Society

variable {c : Config} {w : Society} {id : Uuid} {a : Agent} {states : List CellState}

theorem Reachable.ready (hw : Reachable c w) (hc : c.Steady w.controller) :
    Society.Each c (Society.BoardFits c) (Agent.Ready c w.controller) w :=
  hw.each (Agent.lasting_ready hc) hc.enduring (Agent.inborn_ready hc) fun _ => Society.boardFits_of_config

theorem Reachable.surroundings (hw : Reachable c w) (taskId : Uuid) :
    (w.surroundings taskId).config = c ∧ (w.surroundings taskId).guard = c.numerics.guard :=
  ⟨hw.owned.config, congrArg (fun c : Config => c.numerics.guard) hw.owned.config⟩

theorem Reachable.tick_ready (hw : Reachable c w) (hc : c.Steady w.controller) (ha : w.Holds id a states)
    (s : Senses) (e : Encounter) (dt : Float32) (taskId : Uuid) :
    ∃ (b : Agent) (next : List CellState), (w.tick id s e dt taskId).1 = .ok b.decision ∧
      (w.tick id s e dt taskId).2.Holds id { b with gossip := none } next ∧
      Agent.Ready c w.controller { b with gossip := none } next ∧ (∀ t ∈ next, t.isFinite = true) ∧
      b.binding = a.binding ∧
      (b.decision.degraded = true ↔ a.binding = .detached ∨ Agent.Upset states) ∧
      (c.Retentive → b.decision.degraded = false → b.decision.memoryWritten = true) := by
  have heach := hw.ready hc
  obtain ⟨hconfig, hguard⟩ := hw.surroundings taskId
  obtain ⟨b, next, htick, hlen, hready, hfinite, hdegraded, hwritten⟩ :=
    (heach.holds id a states ha).tick hc hconfig (hguard.trans hc.guard) heach.board ha.sees s e dt
  obtain ⟨hok, hheld, -⟩ := ha.tick htick hlen (Agent.tick_keeps ha.sees htick).handles
  exact ⟨b, next, hok, hheld, hready.untold, hfinite, (Agent.tick_parameters htick).1, hdegraded, hwritten⟩

theorem Reachable.ticksSteadily (hw : Reachable c w) (hc : c.Steady w.controller) (ha : w.Holds id a states)
    (s : Senses) (e : Encounter) (dt : Float32) (taskId : Uuid) : w.TicksSteadily id a states s e dt taskId := by
  have heach := hw.ready hc
  obtain ⟨hconfig, hguard⟩ := hw.surroundings taskId
  obtain ⟨b, next, hok, hheld, hready, hfinite, hbinding, hdegraded, -⟩ := hw.tick_ready hc ha s e dt taskId
  refine ⟨?_, ⟨b.decision, hok, ?_⟩, ⟨_, next, hheld, fun t ht => ?_⟩, ?_⟩
  · exact (heach.holds id a states ha).unhindered hc hconfig (hguard.trans hc.guard) heach.board ha.sees s e dt
  · rw [← Society.upset_iff_carried]
    exact hdegraded
  · exact CellState.isFinite_iff.mp (hfinite t ht)
  · intro hattached requests hr s' e' dt' taskId'
    have hticked : Reachable c (w.tick id s e dt taskId).2 := .next (.tick id s e dt taskId) hw
    have hsane : Agent.Sane c w.controller { b with gossip := none } next :=
      ⟨hready, fun hd => hattached (hbinding.symm.trans hd), hfinite⟩
    obtain ⟨b₁, next₁, hheld₁, hsane₁⟩ := hheld.serveAll_lasting (Agent.lasting_sane hc) hc.enduring hticked.owned
      (hc.enduring.serve heach.board (.tick id s e dt taskId)) hsane hr
    have hlater := hticked.serveAll requests
    have hc₁ : c.Steady ((w.tick id s e dt taskId).2.serveAll requests).controller := by
      rw [hw.owned.controller_eq hlater.owned]
      exact hc
    obtain ⟨b₂, _, hok₂, -, -, -, -, hdegraded₂, -⟩ := hlater.tick_ready hc₁ hheld₁ s' e' dt' taskId'
    refine ⟨b₂.decision, hok₂, Bool.not_eq_true _ ▸ fun hd => ?_⟩
    rcases hdegraded₂.mp hd with hdetached | ⟨t, ht, hupset⟩
    · exact hsane₁.attached hdetached
    · rw [hsane₁.finite t ht] at hupset
      cases hupset

theorem Reachable.tick_narrow (hw : Reachable c w) (hc : vectorSize c.memory.width < sensedWidth)
    (hid : w.contains id = true) (s : Senses) (e : Encounter) (dt : Float32) (taskId : Uuid) :
    (w.tick id s e dt taskId).1 = .error .outOfBounds := by
  have heach := hw.each (Agent.lasting_narrow hc) ⟨fun _ _ => trivial, fun _ => trivial, fun _ _ => trivial⟩
    Agent.inborn_narrow fun _ _ => trivial
  obtain ⟨a, states, ha⟩ := heach.owned.holds hid
  have hnarrow : vectorSize a.memory.width < sensedWidth := by
    rw [Memory.width, heach.holds id a states ha]
    exact hc
  rw [ha.tick_error (Agent.tick_narrow hnarrow (w.surroundings taskId) w.pools s e dt)]

/-- **Ticks cannot fail where there are buffers.** In a reachable society `w` whose guard is `sanitize`: if the
memories of the agents and the board have buffers (`Memory.hasBuffer`), every tick of every agent `TicksSteadily`, for
all senses, encounters and `dt`. If the width of the memory fits 64 bits but its `paddedStride` wraps below it, every
tick of every agent is out of bounds. -/
theorem Reachable.ticks_succeed (hw : Reachable c w) (hguard : c.numerics.guard = .sanitize) :
    (Memory.hasBuffer c.memory.slots c.memory.width = true →
      c.limits.gossipSlots = 0 ∨ Memory.hasBuffer c.limits.gossipSlots c.memory.width = true →
      ∀ id, w.contains id = true → ∃ a states, w.Holds id a states ∧
        ∀ s e dt taskId, w.TicksSteadily id a states s e dt taskId) ∧
    (c.memory.width < UInt64.size → paddedStride c.memory.width < c.memory.width →
      ∀ id, w.contains id = true → ∀ s e dt taskId, (w.tick id s e dt taskId).1 = .error .outOfBounds) := by
  constructor
  · intro hmemory hboard id hid
    obtain ⟨_, fresh, hfresh, -⟩ := hw.starts
    obtain ⟨_, _, hvalid, -⟩ := Society.ofConfig_cases hfresh
    have hc : c.Steady w.controller := ⟨hvalid, hguard, hmemory, hboard, hw.owned.stack⟩
    obtain ⟨a, states, ha⟩ := hw.owned.holds hid
    exact ⟨a, states, ha, fun s e dt taskId => hw.ticksSteadily hc ha s e dt taskId⟩
  · intro hsize hstride id hid s e dt taskId
    refine hw.tick_narrow ?_ hid s e dt taskId
    rw [Agent.vectorSize_of_wrapped hsize hstride]
    decide

/-- An agent of the default configuration ticks steadily. One without slots but with the widest of memories
never ticks at all. -/
theorem ticks_succeed_by_default_not_widest :
    (∃ w, Reachable {} w ∧ ∃ a states, w.Holds ⟨1, 2⟩ a states ∧
      ∀ s e dt taskId, w.TicksSteadily ⟨1, 2⟩ a states s e dt taskId) ∧
    ∃ w, Reachable { memory := { slots := 0, width := 18446744073709551615 } } w ∧
      w.contains ⟨1, 2⟩ = true ∧ ∀ s e dt taskId, (w.tick ⟨1, 2⟩ s e dt taskId).1 = .error .outOfBounds := by
  constructor
  · obtain ⟨w, hw, hid⟩ : ∃ w, Reachable {} w ∧ w.contains ⟨1, 2⟩ = true :=
      ⟨_, .next (.spawn ⟨⟨1, 2⟩, "Vex", .rogue, none⟩) (.start .scalar rfl), rfl⟩
    exact ⟨w, hw, (Reachable.ticks_succeed hw rfl).1 (by decide) (by decide) ⟨1, 2⟩ hid⟩
  · obtain ⟨w, hw, hid⟩ : ∃ w, Reachable { memory := { slots := 0, width := 18446744073709551615 } } w ∧
        w.contains ⟨1, 2⟩ = true :=
      ⟨_, .next (.spawnWith ⟨⟨1, 2⟩, "Vex", .rogue, none⟩ .detached) (.start .scalar rfl), rfl⟩
    exact ⟨w, hw, hid, (Reachable.ticks_succeed hw rfl).2 (by decide) (by decide) ⟨1, 2⟩ hid⟩

end NpcMind
