import NpcMind.Proofs.Finiteness
import NpcMind.Proofs.Invariants

/-!
# Output modes

A controller gives out what its last layer gives out, or what all layers do, one after the other. Whatever the
mode, an agent reads its decision from the end of that. So every society has a plain twin, in which only the
last layer is given out and nothing is charged. What is asked of a society is answered by its twin in the same
way, and the twin of what is left is what is left of the twin. Two societies whose configurations differ in
their output modes have the same twin.
-/

namespace NpcMind

open StatePools Outcome

/-! ### Steps of the controller -/

namespace Stack

variable {s : Stack} {b : Backend} {g : Guard} {outs : List Vec}

/-- Every layer gives out as many values as it is wide. -/
theorem sizes_of_advance {cells : List Cell} {layers layers' : List (SlotPool CellState)} {handles : List Handle}
    {input : Vec} {n : Nat} (h : advance b g cells layers handles input = (.ok (n, outs), layers')) :
    outs.map Array.size = cells.map Cell.hiddenSize := by
  induction cells generalizing layers handles input n outs layers' with
  | nil =>
    cases h
    rfl
  | cons c cells ih =>
    rcases layers with _ | ⟨pool, layers⟩
    · cases h
    rcases handles with _ | ⟨handle, handles⟩
    · cases h
    unfold advance at h
    split at h
    · cases h
    · next repairs state hstep =>
      obtain ⟨t, -, hstep⟩ := ok_of_bind hstep
      split at h
      · cases h
      · next hrest =>
        cases h
        rw [List.map_cons, List.map_cons, ih hrest, (Cell.hasSize_step hstep).hidden]

/-- The part of what a stack gives out that a decision is read from. -/
def readout (s : Stack) (out : Vec) : Vec := out.extract (out.size - s.finalSize) out.size

theorem readout_readOut (mode : OutputMode) (h : outs.map Array.size = s.hiddenSizes) :
    s.readout (readOut mode outs) = readOut .finalLayer outs := by
  have hfinal : s.outputSize .finalLayer = (readOut .finalLayer outs).size := (size_readOut h).symm
  rw [outputSize] at hfinal
  cases mode with
  | finalLayer => simp [readout, hfinal]
  | allLayers =>
    rcases List.eq_nil_or_concat' outs with rfl | ⟨front, last, rfl⟩
    · simp [readout, readOut]
    · have hlast : readOut .finalLayer (front ++ [last]) = last := by simp [readOut]
      have hall : readOut .allLayers (front ++ [last]) = front.foldl (· ++ ·) #[] ++ last := by
        simp [readOut]
      rw [readout, hfinal, hlast, hall, Array.size_append, Nat.add_sub_cancel, Array.extract_append_right,
        Array.extract_size]

theorem readout_readout (s : Stack) (out : Vec) : s.readout (s.readout out) = s.readout out := by
  have hsize : (s.readout out).size ≤ s.finalSize := by
    rw [readout, Array.size_extract]
    omega
  rw [readout, Nat.sub_eq_zero_of_le hsize, Array.extract_size]

theorem hiddenSizes_addTo (s : Stack) (i : Nat) (delta : Float32) :
    (s.addTo i delta).hiddenSizes = s.hiddenSizes := by
  unfold addTo hiddenSizes
  refine List.ext_getElem? fun n => ?_
  simp only [List.getElem?_map, List.getElem?_modify]
  cases s.layers[n]? with
  | none => rfl
  | some c =>
    split
    · exact congrArg some (c.addTo_sizes _ delta).2
    · rfl

theorem finalSize_addAll (s : Stack) (updates : List (Nat × Float32)) :
    (updates.foldl (fun s e => s.addTo e.1 e.2) s).finalSize = s.finalSize := by
  induction updates generalizing s with
  | nil => rfl
  | cons u rest ih => rw [List.foldl_cons, ih, finalSize_eq, finalSize_eq, hiddenSizes_addTo]

/-- **The mode is a matter of what is given out only.** In every mode the layers make the same step or fail
the same way, and what is given out ends in what the last layer gives out. -/
theorem forward_finalLayer (s : Stack) (b : Backend) (g : Guard) (p : StatePools) (handles : List Handle)
    (input : Vec) (mode : OutputMode) :
    s.forward b g p handles input .finalLayer s.finalSize =
      ((s.forward b g p handles input mode (s.outputSize mode)).1.map fun r => (r.1, s.readout r.2),
        (s.forward b g p handles input mode (s.outputSize mode)).2) := by
  have hsize : expectSize "controller output" (s.outputSize .finalLayer) s.finalSize = .ok () := expectSize_ok _ _
  simp only [forward, hsize, expectSize_ok]
  cases expectSize "controller layers" s.layers.length handles.length with
  | error e => rfl
  | ok u =>
    dsimp only [bind, Except.bind]
    rcases hstep : advance b g s.layers p.layers handles input with ⟨_ | ⟨repairs, outs⟩, layers⟩
    · rfl
    · simp only [Except.map, readout_readOut mode (sizes_of_advance hstep)]

end Stack

/-! ### Plain agents -/

/-- The configuration with another output mode. -/
def Config.inMode (c : Config) (mode : OutputMode) : Config :=
  { c with controller := { c.controller with outputMode := mode } }

/-- The same, with only the last layer given out. -/
def Surroundings.plain (env : Surroundings) : Surroundings := { env with config := env.config.inMode .finalLayer }

namespace Agent

variable {a : Agent} {p : StatePools} {c : Config}

/-- The agent as it would be if only the last layer were given out and nothing charged. -/
def plain (a : Agent) : Agent :=
  { a with
    outputSize := (a.controller.map Stack.finalSize).getD Config.readoutWidth
    budget := { capacity := 0 } }

/-- The agent expects as many values as its controller gives out. -/
def Expects (mode : OutputMode) (a : Agent) : Prop :=
  ∀ stack, a.controller = some stack → a.outputSize = stack.outputSize mode

theorem plain_choose (readout : Vec) (company : Bool) :
    a.plain.choose (c.inMode .finalLayer) readout company = (a.choose c readout company).map plain := by
  unfold choose
  simp only [plain, Config.inMode]
  cases Choice.distribution readout c.controller.logitScale a.profile.archetype company with
  | error e => rfl
  | ok probabilities =>
    cases Choice.signals readout with
    | error e => rfl
    | ok signals => rfl

theorem plain_decide {env : Surroundings} (h : a.Expects env.config.controller.outputMode) (attended : Vec)
    (percept : Percept) (e : Encounter) :
    a.plain.decide env.plain p attended percept e =
      (a.decide env p attended percept e).map fun r => (r.1.plain, r.2) := by
  unfold decide
  simp only [show a.plain.controller = a.controller from rfl, show a.plain.handles = a.handles from rfl]
  cases hc : a.controller with
  | none => rfl
  | some stack =>
    dsimp only
    split
    · have hplain : a.plain.outputSize = stack.finalSize := by simp only [plain, hc]; rfl
      have hforward := stack.forward_finalLayer env.backend env.guard p a.handles (a.controllerInput attended)
        env.config.controller.outputMode
      rw [hplain, h stack hc]
      simp only [Surroundings.plain, Config.inMode] at hforward ⊢
      rw [show a.plain.controllerInput attended = a.controllerInput attended from rfl, hforward]
      generalize stack.forward env.backend env.guard p a.handles (a.controllerInput attended)
        env.config.controller.outputMode (stack.outputSize env.config.controller.outputMode) = r
      rcases r with ⟨err | ⟨repairs, out⟩, q⟩
      · cases err <;> rfl
      · have hchoose := plain_choose (a := a) (c := env.config) (stack.readout out) (percept.hasInterlocutor e)
        have hagain := stack.readout_readout out
        unfold Stack.readout at hchoose hagain
        simp only [Except.map, Stack.readout, hagain]
        rw [show (Config.mk _ _ _ _ _ _) = env.config.inMode .finalLayer from rfl, hchoose]
        cases a.choose env.config (out.extract (out.size - stack.finalSize) out.size)
          (percept.hasInterlocutor e) <;> rfl
    · rfl

theorem plain_sampleFisher (logitScale : Float32) :
    a.plain.sampleFisher p logitScale = (a.sampleFisher p logitScale).plain := by
  unfold sampleFisher
  rw [show a.plain.policyGradient p logitScale = a.policyGradient p logitScale from rfl]
  cases a.policyGradient p logitScale with
  | error e => rfl
  | ok gradient => rfl

theorem plain_consolidateInTime (k : Config.Consolidation) (taskId : Uuid) :
    a.plain.consolidateInTime k taskId = (a.consolidateInTime k taskId).plain := by
  unfold consolidateInTime
  rw [show a.plain.writesSinceConsolidation = a.writesSinceConsolidation from rfl]
  split <;> rfl

theorem plain_learn (taskId : Uuid) (memory : Memory) (experience : Vec) (importance : Float32) :
    a.plain.learn p (c.inMode .finalLayer) taskId memory experience importance =
      (a.learn p c taskId memory experience importance).plain := by
  have hnote : a.plain.note memory experience importance = (a.note memory experience importance).plain := rfl
  rw [learn_eq, learn_eq, hnote, plain_sampleFisher, plain_consolidateInTime]
  rfl

theorem plain_remember (taskId : Uuid) (query : Vec) :
    a.plain.remember p (c.inMode .finalLayer) taskId query = (a.remember p c taskId query).map plain := by
  unfold remember
  simp only [show a.plain.decision = a.decision from rfl, show a.plain.memory = a.memory from rfl,
    show a.plain.attention = a.attention from rfl, show a.plain.experience query = a.experience query from rfl,
    show (c.inMode .finalLayer).temper = c.temper from rfl]
  split
  · rfl
  · cases a.experience query with
    | error e => rfl
    | ok experience =>
      dsimp only [bind, Except.bind]
      cases (a.memory.write experience (a.decision.memoryWriteSignal * a.attention.novelty)).tolerate with
      | error e => rfl
      | ok written =>
        dsimp only
        split
        · exact congrArg Except.ok (plain_learn _ _ _ _)
        · rfl

theorem plain_feel (t : Config.Temper) (s : Senses) (e : Encounter) (dt : Float32) :
    a.plain.feel t s e dt = (a.feel t s e dt).plain := by
  simp only [feel, plain]

/-- **A tick of the plain agent is the agent's tick.** -/
theorem plain_tick {env : Surroundings} (h : a.Expects env.config.controller.outputMode) (s : Senses)
    (e : Encounter) (dt : Float32) :
    a.plain.tick env.plain p s e dt = (a.tick env p s e dt).map fun r => (r.1.plain, r.2) := by
  unfold tick
  have hattend : a.plain.attend env.plain.config.temper s e =
    ((a.attend env.config.temper s e).1, (a.attend env.config.temper s e).2.plain) := rfl
  dsimp only
  rw [hattend]
  have hexpects : (a.attend env.config.temper s e).2.Expects env.config.controller.outputMode := h
  generalize a.attend env.config.temper s e = r at hexpects ⊢
  obtain ⟨attended, b⟩ := r
  dsimp only
  rw [show b.plain.query attended = b.query attended from rfl]
  cases b.query attended with
  | error err => rfl
  | ok query =>
    dsimp only [bind, Except.bind]
    rw [show b.plain.recollect env.plain query = b.recollect env query from rfl]
    cases b.recollect env query with
    | error err => rfl
    | ok longTermContext =>
      have hdecide := plain_decide (a := { b with longTermContext }) (p := p) hexpects attended (s.percept e) e
      have hrecall : { b with longTermContext }.plain = { b.plain with longTermContext } := rfl
      rw [hrecall] at hdecide
      dsimp only
      rw [hdecide]
      cases { b with longTermContext }.decide env p attended (s.percept e) e with
      | error err => rfl
      | ok r =>
        have hremember := plain_remember (a := r.1.feel env.config.temper s e dt) (p := r.2) (c := env.config)
          env.taskId query
        dsimp only [Except.map]
        rw [show env.plain.config = env.config.inMode .finalLayer from rfl,
          show env.plain.taskId = env.taskId from rfl,
          show (env.config.inMode .finalLayer).temper = env.config.temper from rfl, plain_feel, hremember]
        cases (r.1.feel env.config.temper s e dt).remember r.2 env.config env.taskId query <;> rfl

/-- Resets of the plain agent are the agent's. -/
theorem plain_resetAct : a.plain.resetAct p = ((a.resetAct p).1, (a.resetAct p).2.1.plain, (a.resetAct p).2.2) := by
  unfold resetAct reset
  rw [show a.plain.handles = a.handles from rfl]
  rcases p.reset a.handles with ⟨_ | _, q⟩ <;> rfl

theorem plain_applyUpdates {stack : Stack} (hc : a.controller = some stack) (updates : List (Nat × Float32)) :
    a.plain.applyUpdates stack updates = (a.applyUpdates stack updates).plain := by
  unfold applyUpdates
  split
  · rfl
  · have hsize := stack.finalSize_addAll updates
    simp only [plain, hc, Option.map_some, Option.getD_some, hsize]

theorem plain_reinforce (reward : Float32) :
    a.plain.reinforce p (c.inMode .finalLayer) reward =
      (a.reinforce p c reward).map fun r => (r.1, r.2.plain) := by
  unfold reinforce
  rw [show a.plain.controller = a.controller from rfl]
  cases hc : a.controller with
  | none => rfl
  | some stack =>
    dsimp only
    rw [show a.plain.rewardUpdates p (c.inMode .finalLayer) reward = a.rewardUpdates p c reward from rfl,
      show a.plain.penaltyUpdates (c.inMode .finalLayer) stack.flatten = a.penaltyUpdates c stack.flatten from rfl]
    cases a.rewardUpdates p c reward with
    | error e => rfl
    | ok rewards =>
      cases a.penaltyUpdates c stack.flatten with
      | error e => rfl
      | ok pulls =>
        dsimp only [bind, Except.bind]
        rw [plain_applyUpdates hc]
        generalize a.applyUpdates stack (rewards ++ pulls) = b
        rw [show b.plain.penalty = b.penalty from rfl]
        cases b.penalty <;> rfl

end Agent

/-! ### Pools under a map -/

namespace SlotPool

variable {α β : Type} {f : α → β} {pool : SlotPool α}

/-- The pool with other values in its slots. -/
def map (f : α → β) (pool : SlotPool α) : SlotPool β :=
  ⟨pool.name, pool.slots.map fun slot => ⟨slot.generation, slot.value.map f⟩, pool.free⟩

theorem get?_map (f : α → β) (pool : SlotPool α) (h : Handle) : (pool.map f).get? h = (pool.get? h).map f := by
  unfold get? map
  simp only [Array.getElem?_map]
  cases pool.slots[h.index]? with
  | none => rfl
  | some slot =>
    simp only [Option.map_some, bind, Option.bind]
    split <;> rfl

theorem get_map (f : α → β) (pool : SlotPool α) (h : Handle) : (pool.map f).get h = (pool.get h).map f := by
  unfold get
  rw [get?_map]
  cases pool.get? h <;> rfl

theorem modify_map {γ δ : Type} (xs : Array γ) (g : γ → δ) {k : δ → δ} {k' : γ → γ}
    (h : ∀ x, k (g x) = g (k' x)) (i : Nat) : (xs.map g).modify i k = (xs.modify i k').map g := by
  refine Array.ext_getElem? fun j => ?_
  simp only [Array.getElem?_map, Array.getElem?_modify]
  cases xs[j]? with
  | none => simp
  | some x =>
    split
    · exact congrArg some (h x)
    · rfl

theorem set_map (f : α → β) (pool : SlotPool α) (h : Handle) (a : α) :
    (pool.map f).set h (f a) = (pool.set h a).map f := by
  unfold set
  have hcontains : (pool.map f).contains h = pool.contains h := by simp [contains, get?_map]
  rw [hcontains]
  split
  · have hslots : (pool.map f).slots.modify h.index (fun slot => { slot with value := some (f a) }) =
        (pool.slots.modify h.index fun slot => { slot with value := some a }).map fun slot =>
          ⟨slot.generation, slot.value.map f⟩ := by
      refine modify_map _ _ ?_ _
      exact fun _ => rfl
    exact congrArg (SlotPool.mk pool.name · pool.free) hslots
  · rfl

theorem insert_map (f : α → β) (pool : SlotPool α) (a : α) :
    (pool.map f).insert (f a) = (pool.insert a).map fun r => (r.1, r.2.map f) := by
  unfold insert
  simp only [map, Array.getElem?_map, capacity, Array.size_map]
  split
  · rfl
  · next i free hfree =>
    cases pool.slots[i]? with
    | none => rfl
    | some slot => simp only [Option.map_some, Except.map, Array.map_setIfInBounds]

theorem remove_map (f : α → β) (pool : SlotPool α) (h : Handle) :
    (pool.map f).remove h = (pool.remove h).map fun r => (f r.1, r.2.map f) := by
  unfold remove
  rw [get?_map]
  cases pool.get? h with
  | none => rfl
  | some a =>
    have hslots : (pool.map f).slots.modify h.index (fun slot => ⟨slot.generation + 1, none⟩) =
        (pool.slots.modify h.index fun slot => ⟨slot.generation + 1, none⟩).map fun slot =>
          ⟨slot.generation, slot.value.map f⟩ := by
      refine modify_map _ _ ?_ _
      exact fun _ => rfl
    simp only [Option.map_some, hslots, Except.map]
    rfl

end SlotPool

/-! ### Plain societies -/

theorem Agent.expects_of_sound {c : Config} {shared : Stack} {a : Agent} (h : a.Sound c shared) :
    a.Expects c.controller.outputMode := by
  intro stack hs
  have hsize := h.bound.outputSize
  rw [hs] at hsize
  exact hsize

namespace Society

variable {c c' : Config} {w w' : Society} {id : Uuid} {β : Type}

/-- The society as it would be if only the last layer were given out and nothing charged. -/
def plain (w : Society) : Society :=
  { w with config := w.config.inMode .finalLayer, agents := w.agents.map Agent.plain }

theorem plain_locate (w : Society) (id : Uuid) :
    w.plain.locate id = (w.locate id).map fun r => (r.1, r.2.plain) := by
  unfold locate
  rw [show w.plain.handle id = w.handle id from rfl]
  cases w.handle id with
  | error e => rfl
  | ok h =>
    dsimp only [bind, Except.bind]
    rw [show w.plain.agents.get h = (w.agents.map Agent.plain).get h from rfl, SlotPool.get_map]
    cases w.agents.get h <;> rfl

/-- An operation that treats plain agents as it treats the agents. -/
theorem plain_act {f f' : Agent → StatePools → Outcome β × Agent × StatePools}
    (hf : ∀ a, f' a.plain w.pools = ((f a w.pools).1, (f a w.pools).2.1.plain, (f a w.pools).2.2))
    (id : Uuid) : w.plain.act id f' = ((w.act id f).1, (w.act id f).2.plain) := by
  unfold act
  rw [plain_locate]
  cases w.locate id with
  | error e => rfl
  | ok r =>
    dsimp only [Except.map]
    rw [show w.plain.pools = w.pools from rfl, hf]
    simp only [plain, SlotPool.set_map]

theorem plain_reset (w : Society) (id : Uuid) : w.plain.reset id = ((w.reset id).1, (w.reset id).2.plain) := by
  rw [reset_eq_act, reset_eq_act]
  exact plain_act (fun a => Agent.plain_resetAct) id

theorem plain_shiftRelationship (w : Society) (id : Uuid) (change : Float32) :
    w.plain.shiftRelationship id change =
      ((w.shiftRelationship id change).1, (w.shiftRelationship id change).2.plain) := by
  rw [shiftRelationship_eq_act, shiftRelationship_eq_act]
  exact plain_act (fun a => rfl) id

theorem plain_reinforce (w : Society) (id : Uuid) (reward : Float32) :
    w.plain.reinforce id reward = ((w.reinforce id reward).1, (w.reinforce id reward).2.plain) := by
  rw [reinforce_eq_act, reinforce_eq_act]
  refine plain_act (fun a => ?_) id
  unfold Agent.reinforceAct
  rw [show w.plain.config = w.config.inMode .finalLayer from rfl, Agent.plain_reinforce]
  cases a.reinforce w.pools w.config reward <;> rfl

theorem plain_agent (w : Society) (id : Uuid) : w.plain.agent id = (w.agent id).map Agent.plain := by
  unfold agent
  rw [show w.plain.handle id = w.handle id from rfl]
  cases w.handle id with
  | error e => rfl
  | ok h => exact SlotPool.get_map Agent.plain w.agents h

theorem plain_save (w : Society) (id : Uuid) : w.plain.save id = w.save id := by
  unfold save
  rw [plain_agent]
  cases w.agent id <;> rfl

theorem plain_despawn (w : Society) (id : Uuid) : w.plain.despawn id = ((w.despawn id).1, (w.despawn id).2.plain) := by
  unfold despawn
  rw [show w.plain.handle id = w.handle id from rfl]
  cases w.handle id with
  | error e => rfl
  | ok h =>
    dsimp only
    rw [show w.plain.agents.remove h = (w.agents.map Agent.plain).remove h from rfl, SlotPool.remove_map]
    cases w.agents.remove h <;> rfl

theorem tell_plain (board : Option Board) (a : Agent) :
    tell board a.plain = ((tell board a).1, (tell board a).2.plain) := by
  unfold tell
  rw [show a.plain.gossip = a.gossip from rfl]
  rcases board with _ | k
  · rfl
  · rcases a.gossip with _ | told
    · rfl
    · dsimp only
      cases k.publish told.1 told.2 <;> rfl

/-- Every agent expects what its controller gives out. -/
theorem Sound.expects (hw : w.Sound c) {h : Handle} {a : Agent} (ha : w.agents.get? h = some a) :
    a.Expects w.config.controller.outputMode := by
  obtain ⟨states, hv⟩ := hw.owned.live h a ha
  have hwhole := hw.whole a.id a states ⟨h, hw.owned.indexed h a ha, ha, hv⟩
  rw [hw.owned.config]
  exact Agent.expects_of_sound hwhole.sound

theorem plain_tick (hw : w.Sound c) (id : Uuid) (s : Senses) (e : Encounter) (dt : Float32) (taskId : Uuid) :
    w.plain.tick id s e dt taskId = ((w.tick id s e dt taskId).1, (w.tick id s e dt taskId).2.plain) := by
  unfold tick
  rw [plain_locate]
  cases hl : w.locate id with
  | error err => rfl
  | ok r =>
    obtain ⟨h, a⟩ := r
    have hexpects : a.Expects (w.surroundings taskId).config.controller.outputMode := hw.expects (get?_of_locate hl)
    have htick := Agent.plain_tick (p := w.pools) hexpects s e dt
    dsimp only [Except.map]
    rw [show w.plain.surroundings taskId = (w.surroundings taskId).plain from rfl,
      show w.plain.pools = w.pools from rfl, htick]
    cases a.tick (w.surroundings taskId) w.pools s e dt with
    | error err => rfl
    | ok r =>
      dsimp only [Except.map]
      rw [show w.plain.board = w.board from rfl, tell_plain]
      simp only [plain, SlotPool.set_map]
      rfl

theorem plain_tickAll (hw : Genuine c w) (dt : Float32) (frames : List Frame) :
    w.plain.tickAll dt frames = ((w.tickAll dt frames).1, (w.tickAll dt frames).2.plain) := by
  induction frames generalizing w with
  | nil => rfl
  | cons f rest ih =>
    have hnext : Genuine c (w.tick f.id f.senses f.encounter dt f.taskId).2 :=
      .next (.tick f.id f.senses f.encounter dt f.taskId) rfl hw
    unfold tickAll
    rw [plain_tick hw.sound]
    generalize w.tick f.id f.senses f.encounter dt f.taskId = r at hnext ⊢
    obtain ⟨_ | _, w₁⟩ := r
    · rfl
    · exact ih hnext

/-- **What is asked of the plain society is answered as by the society**, and stays in step with it. -/
theorem plain_serve (hw : Genuine c w) {r : Request} (hadds : r.adds = false) (hbrings : r.bringsRecord = false) :
    w.plain.serve r = ((w.serve r).1, (w.serve r).2.plain) := by
  cases r with
  | spawn | spawnWith | load => cases hadds
  | restoreGossip => cases hbrings
  | despawn id => simp only [serve, answer, plain_despawn]
  | tick id s e dt taskId => simp only [serve, answer, plain_tick hw.sound]
  | update frames dt =>
    simp only [serve, answer, update]
    rw [show (fun f : Frame => (do let _ ← w.plain.handle f.id : Outcome Unit)) =
      fun f => (do let _ ← w.handle f.id : Outcome Unit) from rfl]
    cases frames.forM fun f => (do let _ ← w.handle f.id : Outcome Unit) with
    | error e => rfl
    | ok u => simp only [plain_tickAll hw]
  | reset id => simp only [serve, answer, plain_reset]
  | reinforce id reward => simp only [serve, answer, plain_reinforce]
  | shiftRelationship id change => simp only [serve, answer, plain_shiftRelationship]
  | save id => simp only [serve, answer, plain_save]
  | clearGossip => rfl

end Society

/-! ### Spawning -/

/-- New agents of configurations that differ in their output modes differ in nothing else that counts. -/
theorem Agent.plain_of_assemble {p : Profile} {binding : Binding} {controller : Option Stack}
    {handles : List Handle} {left left' : Budget} {c c' : Config} {a b : Agent}
    (hc : c.inMode .finalLayer = c'.inMode .finalLayer)
    (ha : assemble p binding controller handles left c = .ok a)
    (hb : assemble p binding controller handles left' c' = .ok b) : a.plain = b.plain := by
  have hmemory : c.memory = c'.memory := (congrArg Config.memory hc :)
  have hconsolidation : c.consolidation = c'.consolidation := (congrArg Config.consolidation hc :)
  obtain ⟨_, memory, consolidator, hm, hk, rfl⟩ := assemble_cases ha
  obtain ⟨_, memory', consolidator', hm', hk', rfl⟩ := assemble_cases hb
  rw [hmemory, hm'] at hm
  rw [hconsolidation, hk'] at hk
  cases hm
  cases hk
  simp only [plain, hmemory]

theorem Agent.plain_of_spawn {p : Profile} {binding : Binding} {shared : Stack} {pools q q' : StatePools}
    {c c' : Config} {a b : Agent} (hc : c.inMode .finalLayer = c'.inMode .finalLayer)
    (ha : spawn p binding shared pools c = (.ok a, q)) (hb : spawn p binding shared pools c' = (.ok b, q')) :
    a.plain = b.plain ∧ q = q' := by
  have hlimits : c.limits = c'.limits := (congrArg Config.limits hc :)
  unfold spawn at ha hb
  dsimp only at ha hb
  rw [hlimits] at ha
  split at ha
  · next hdetached =>
    rw [if_pos hdetached] at hb
    obtain ⟨hass, rfl⟩ := Prod.mk.inj ha
    obtain ⟨hass', rfl⟩ := Prod.mk.inj hb
    exact ⟨plain_of_assemble hc hass hass', rfl⟩
  · next hattached =>
    rw [if_neg hattached] at hb
    rcases hacquire : pools.acquire shared.layers { capacity := c'.limits.arenaFloats } with
      ⟨_ | handles, drawn, left⟩
    · rw [hacquire] at ha
      cases ha
    · rw [hacquire] at ha hb
      dsimp only at ha hb
      split at ha
      · next hass =>
        cases ha
        split at hb
        · next hass' =>
          cases hb
          exact ⟨plain_of_assemble hc hass hass', rfl⟩
        · cases hb
      · cases ha

theorem Stack.ofConfig_inMode (inputSize : Nat) (c : Config) (mode : OutputMode) :
    ofConfig inputSize (c.inMode mode).controller = ofConfig inputSize c.controller := by
  have hlayers (sizes : List Nat) (n number : Nat) :
      layersFrom (c.inMode mode).controller n number sizes = layersFrom c.controller n number sizes := by
    induction sizes generalizing n number with
    | nil => rfl
    | cons size rest ih =>
      unfold layersFrom
      rw [ih]
      rfl
  unfold ofConfig
  rw [hlayers]
  rfl

namespace Society

variable {c c' : Config} {w w' : Society} {id : Uuid}

/-- What a successful spawn adds. -/
theorem of_spawnWith {p : Profile} {binding : Binding} (hs : (w.spawnWith p binding).1 = .ok id) :
    ∃ a pools h agents, Agent.spawn p binding w.controller w.pools w.config = (.ok a, pools) ∧
      w.agents.insert a = .ok (h, agents) ∧
      (w.spawnWith p binding).2 = { w with pools, agents, index := (p.id, h) :: w.index } := by
  unfold spawnWith at hs ⊢
  split at hs
  · cases hs
  next hnew =>
  split at hs
  · cases hs
  next hroom =>
  rw [if_neg hnew, if_neg hroom]
  split at hs
  · cases hs
  · next a pools hspawn =>
    split at hs
    · cases hs
    · next h agents hinsert => exact ⟨a, pools, h, agents, hspawn, hinsert, rfl⟩

theorem plain_spawnWith (h : w.plain = w'.plain) {p : Profile} {binding : Binding} {id id' : Uuid}
    (hs : (w.spawnWith p binding).1 = .ok id) (hs' : (w'.spawnWith p binding).1 = .ok id') :
    (w.spawnWith p binding).2.plain = (w'.spawnWith p binding).2.plain := by
  have hconfig : w.config.inMode .finalLayer = w'.config.inMode .finalLayer := (congrArg Society.config h :)
  have hcontroller : w.controller = w'.controller := (congrArg Society.controller h :)
  have hpools : w.pools = w'.pools := (congrArg Society.pools h :)
  have hindex : w.index = w'.index := (congrArg Society.index h :)
  have hboard : w.board = w'.board := (congrArg Society.board h :)
  have hmachine : w.backend = w'.backend := (congrArg Society.backend h :)
  have hagents : w.agents.map Agent.plain = w'.agents.map Agent.plain := (congrArg Society.agents h :)
  obtain ⟨a, pools, k, agents, hspawn, hinsert, heq⟩ := of_spawnWith hs
  obtain ⟨a', pools', k', agents', hspawn', hinsert', heq'⟩ := of_spawnWith hs'
  rw [hcontroller, hpools] at hspawn
  obtain ⟨hplain, rfl⟩ := Agent.plain_of_spawn hconfig hspawn hspawn'
  have hmap := SlotPool.insert_map Agent.plain w.agents a
  rw [hagents, hplain, SlotPool.insert_map, hinsert, hinsert'] at hmap
  obtain ⟨rfl, hsame⟩ := Prod.mk.inj (Except.ok.inj hmap)
  rw [heq, heq']
  simp only [plain, hconfig, hcontroller, hindex, hboard, hmachine]
  exact congrArg (fun x => Society.mk _ _ _ x _ _ _) hsame.symm

/-! ### Whole runs -/

/-- What a society answers to one request after the other. -/
def replies (w : Society) : List Request → List (Outcome Answer)
  | [] => []
  | r :: rest => (w.serve r).1 :: (w.serve r).2.replies rest

/-- Whoever is to be added is added. -/
def Admits (w : Society) : List Request → Prop
  | [] => True
  | r :: rest => (r.adds = true → ∃ answer, (w.serve r).1 = .ok answer) ∧ (w.serve r).2.Admits rest

theorem admits_of_stay {requests : List Request} (h : ∀ r ∈ requests, r.adds = false) : w.Admits requests := by
  induction requests generalizing w with
  | nil => trivial
  | cons r rest ih =>
    refine ⟨fun hadds => ?_, ih fun q hq => h q (List.mem_cons_of_mem r hq)⟩
    rw [h r List.mem_cons_self] at hadds
    cases hadds

theorem plain_ofConfig {c : Config} {m m' : OutputMode} {detected : Backend}
    (hw : ofConfig (c.inMode m) detected = .ok w) (hw' : ofConfig (c.inMode m') detected = .ok w') :
    w.plain = w'.plain := by
  obtain ⟨controller, board, -, hstack, hboard, rfl⟩ := ofConfig_cases hw
  obtain ⟨controller', board', -, hstack', hboard', rfl⟩ := ofConfig_cases hw'
  rw [Stack.ofConfig_inMode] at hstack hstack'
  obtain rfl : controller = controller' := Except.ok.inj (hstack.symm.trans hstack')
  obtain rfl : board = board' := Except.ok.inj (hboard.symm.trans hboard')
  rfl

theorem ok_of_answer {α : Type} {f : α → Answer} {r : Outcome α × Society} {x : Answer}
    (h : (answer f r).1 = .ok x) : ∃ a, r.1 = .ok a := by
  rcases r with ⟨_ | a, w⟩
  · cases h
  · exact ⟨a, rfl⟩

theorem plain_admission (h : w.plain = w'.plain) {p : Profile} {binding : Binding} {x x' : Answer}
    (hs : (w.serve (.spawnWith p binding)).1 = .ok x) (hs' : (w'.serve (.spawnWith p binding)).1 = .ok x') :
    (w.serve (.spawnWith p binding)).1 = (w'.serve (.spawnWith p binding)).1 ∧
      (w.serve (.spawnWith p binding)).2.plain = (w'.serve (.spawnWith p binding)).2.plain := by
  obtain ⟨id, hid⟩ := ok_of_answer hs
  obtain ⟨id', hid'⟩ := ok_of_answer hs'
  refine ⟨?_, plain_spawnWith h hid hid'⟩
  simp only [serve, answer, hid, hid', (spawnWith_ok hid).1, (spawnWith_ok hid').1]

/-- A request that brings no record keeps two societies in step, if both serve it. -/
theorem plain_step (hw : Genuine c w) (hw' : Genuine c' w') (h : w.plain = w'.plain) {r : Request}
    (hr : r.bringsRecord = false) (hs : r.adds = true → ∃ answer, (w.serve r).1 = .ok answer)
    (hs' : r.adds = true → ∃ answer, (w'.serve r).1 = .ok answer) :
    (w.serve r).1 = (w'.serve r).1 ∧ (w.serve r).2.plain = (w'.serve r).2.plain := by
  cases hadds : r.adds with
  | false =>
    have hserve := plain_serve hw hadds hr
    rw [h, plain_serve hw' hadds hr] at hserve
    obtain ⟨hanswer, hplain⟩ := Prod.mk.inj hserve
    exact ⟨hanswer.symm, hplain.symm⟩
  | true =>
    obtain ⟨x, hx⟩ := hs hadds
    obtain ⟨x', hx'⟩ := hs' hadds
    cases r with
    | spawn p =>
      have hbinding : w.config.controller.binding = w'.config.controller.binding :=
        (congrArg (fun w : Society => w.config.controller.binding) h :)
      have hspawn (w : Society) : w.serve (.spawn p) = w.serve (.spawnWith p w.config.controller.binding) := rfl
      rw [hspawn, hbinding] at hx ⊢
      rw [hspawn] at hx' ⊢
      exact plain_admission h hx hx'
    | spawnWith p binding => exact plain_admission h hx hx'
    | load => cases hr
    | _ => cases hadds

theorem plain_run (hw : Genuine c w) (hw' : Genuine c' w') (h : w.plain = w'.plain) {requests : List Request}
    (hr : ∀ r ∈ requests, r.bringsRecord = false) (hs : w.Admits requests) (hs' : w'.Admits requests) :
    w.replies requests = w'.replies requests ∧ (w.serveAll requests).plain = (w'.serveAll requests).plain := by
  induction requests generalizing w w' with
  | nil => exact ⟨rfl, h⟩
  | cons r rest ih =>
    have hbrings := hr r List.mem_cons_self
    obtain ⟨hanswer, hplain⟩ := plain_step hw hw' h hbrings hs.1 hs'.1
    obtain ⟨hreplies, hend⟩ := ih (.next r hbrings hw) (.next r hbrings hw') hplain
      (fun q hq => hr q (List.mem_cons_of_mem r hq)) hs.2 hs'.2
    exact ⟨congrArg₂ List.cons hanswer hreplies, hend⟩

end Society

/-- **The output mode makes no difference.** Let `w` and `w'` be made from `c.inMode m` and `c.inMode m'` on machines
with the same `detected` backend, and let `requests` bring no records and both societies admit whoever they add. Then
the `replies` are the same, and so are the societies after them, up to what agents were charged and the size of output
they expect (`plain`), with the same pools and controllers. For every stack `s`, `forward` in mode `allLayers` makes
the same step as in `finalLayer` or fails the same way, and its output ends in what `finalLayer` gives out. -/
theorem Society.modes_alike {c : Config} {m m' : OutputMode} {detected : Backend} {w w' : Society}
    {requests : List Request} (hw : Society.ofConfig (c.inMode m) detected = .ok w)
    (hw' : Society.ofConfig (c.inMode m') detected = .ok w')
    (hr : ∀ r ∈ requests, r.bringsRecord = false) (hs : w.Admits requests) (hs' : w'.Admits requests) :
    w.replies requests = w'.replies requests ∧
    (w.serveAll requests).plain = (w'.serveAll requests).plain ∧
    (w.serveAll requests).pools = (w'.serveAll requests).pools ∧
    (∀ id, ((w.serveAll requests).agent id).map Agent.controller =
      ((w'.serveAll requests).agent id).map Agent.controller) ∧
    ∀ (s : Stack) (b : Backend) (g : Guard) (p : StatePools) (handles : List Handle) (input : Vec),
      s.forward b g p handles input .finalLayer (s.outputSize .finalLayer) =
        ((s.forward b g p handles input .allLayers (s.outputSize .allLayers)).1.map fun r =>
          (r.1, r.2.extract (r.2.size - s.finalSize) r.2.size),
        (s.forward b g p handles input .allLayers (s.outputSize .allLayers)).2) := by
  obtain ⟨hreplies, hplain⟩ := plain_run (.start _ hw) (.start _ hw') (plain_ofConfig hw hw') hr hs hs'
  refine ⟨hreplies, hplain, (congrArg Society.pools hplain :), fun id => ?_, fun s b g p handles input => ?_⟩
  · have hcontroller (w : Society) : (w.agent id).map Agent.controller = (w.plain.agent id).map Agent.controller := by
      rw [plain_agent]
      cases w.agent id <;> rfl
    rw [hcontroller, hplain, ← hcontroller]
  · exact s.forward_finalLayer b g p handles input .allLayers

/-- A controller of two layers, and a rogue with parameters of its own that is spawned, ticks, is rewarded, comes
to trust the player, is reset and ticks again. -/
theorem Society.modes_alike_for_rogue : ∃ (w w' : Society) (rest : List Request),
    Society.ofConfig { controller := { hiddenSizes := [28, 32], outputMode := .finalLayer } } .lanes = .ok w ∧
    Society.ofConfig { controller := { hiddenSizes := [28, 32], outputMode := .allLayers } } .lanes = .ok w' ∧
    rest = [.tick ⟨1, 2⟩ {} {} 1 ⟨3, 4⟩, .reinforce ⟨1, 2⟩ 1, .shiftRelationship ⟨1, 2⟩ 0.5, .reset ⟨1, 2⟩,
      .tick ⟨1, 2⟩ {} {} 1 ⟨5, 6⟩, .save ⟨1, 2⟩] ∧
    w.replies (.spawnWith ⟨⟨1, 2⟩, "Vex", .rogue, none⟩ .perAgent :: rest) =
      w'.replies (.spawnWith ⟨⟨1, 2⟩, "Vex", .rogue, none⟩ .perAgent :: rest) := by
  obtain ⟨w, w', hw, hw', hs, hs'⟩ : ∃ w w' : Society,
      Society.ofConfig { controller := { hiddenSizes := [28, 32], outputMode := .finalLayer } } .lanes = .ok w ∧
      Society.ofConfig { controller := { hiddenSizes := [28, 32], outputMode := .allLayers } } .lanes = .ok w' ∧
      (w.serve (.spawnWith ⟨⟨1, 2⟩, "Vex", .rogue, none⟩ .perAgent)).1 = .ok (.named ⟨1, 2⟩) ∧
      (w'.serve (.spawnWith ⟨⟨1, 2⟩, "Vex", .rogue, none⟩ .perAgent)).1 = .ok (.named ⟨1, 2⟩) :=
    ⟨_, _, rfl, rfl, rfl, rfl⟩
  have hstay : ∀ r ∈ ([.tick ⟨1, 2⟩ {} {} 1 ⟨3, 4⟩, .reinforce ⟨1, 2⟩ 1, .shiftRelationship ⟨1, 2⟩ 0.5, .reset ⟨1, 2⟩,
      .tick ⟨1, 2⟩ {} {} 1 ⟨5, 6⟩, .save ⟨1, 2⟩] : List Request), r.adds = false ∧ r.bringsRecord = false := by
    simp [Request.adds, Request.bringsRecord]
  refine ⟨w, w', _, hw, hw', rfl, (modes_alike (c := { controller := { hiddenSizes := [28, 32] } }) hw hw'
    ?_ ?_ ?_).1⟩
  · exact List.forall_mem_cons.mpr ⟨rfl, fun r hr => (hstay r hr).2⟩
  · exact ⟨fun _ => ⟨_, hs⟩, admits_of_stay fun r hr => (hstay r hr).1⟩
  · exact ⟨fun _ => ⟨_, hs'⟩, admits_of_stay fun r hr => (hstay r hr).1⟩

end NpcMind
