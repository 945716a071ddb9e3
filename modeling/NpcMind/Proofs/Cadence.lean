import NpcMind.Proofs.Chronicles
import NpcMind.Proofs.TaskList

/-!
# When agents consolidate

Every write into an agent's memory is counted, is sampled, and is one step towards the next consolidation. These
counters advance in different places and are cleared at different times, by a consolidation, by a reset and by
resuming an agent. They stay in step all the same: what is counted since the last consolidation is what is left
of all writes by the interval, and there is one sample for each of them.
-/

namespace NpcMind

open StatePools Outcome

/-! ### Counters -/

theorem Memory.writes_of_write {m m' : Memory} {value : Vec} {strength : Float32} {stored : Stored}
    (h : m.write value strength = .ok (some stored, m')) : m'.writes = m.writes + 1 := by
  unfold Memory.write at h
  obtain ⟨_, -, h⟩ := ok_of_bind h
  split at h
  · cases h
  · dsimp only at h
    split at h
    · cases h
    obtain ⟨links, -, h⟩ := ok_of_bind h
    cases h
    rfl

theorem Memory.writes_of_restore {m m' : Memory} {r : MemoryRecord} (h : m.restore r = .ok m') :
    m'.writes = r.writes := by
  obtain ⟨-, rfl⟩ := Memory.eq_put_of_restore h
  rfl

theorem Memory.writes_of_record {m : Memory} {r : MemoryRecord} (h : m.record = .ok r) : r.writes = m.writes :=
  congrArg MemoryRecord.writes (Memory.of_record h).2

theorem Accumulator.samples_addAll (k : Accumulator) (gradient : List (Nat × Float32)) :
    (k.addAll gradient).samples = k.samples := by
  unfold Accumulator.addAll
  induction gradient generalizing k with
  | nil => rfl
  | cons entry rest ih =>
    rw [List.foldl_cons, ih]
    show (k.add entry.1 entry.2).samples = k.samples
    unfold Accumulator.add
    split <;> rfl

theorem Accumulator.samples_of_restore {k k' : Accumulator} {r : AccumulatorRecord} (h : k.restore r = .ok k') :
    k'.samples = r.samples := congrArg samples (eq_ofEntries h)

theorem Consolidator.consolidations_of_consolidate {k k' : Consolidator} {id : Uuid} {name : String} {optimal : Vec}
    {fisher : FisherTable Float32} {importance : Float32} {tick : UInt64} {pruned : Option (Task Float32)}
    (h : k.consolidate id name optimal fisher importance tick = .ok (pruned, k')) :
    k'.consolidations = k.consolidations + 1 := by
  have hroom : k.makeRoom.2.consolidations = k.consolidations := by
    unfold makeRoom
    split
    · rfl
    · split <;> rfl
  obtain ⟨-, rfl⟩ := eq_of_consolidate h
  show k.makeRoom.2.consolidations + 1 = k.consolidations + 1
  rw [hroom]

theorem Consolidator.consolidate_of_validate {k : Consolidator} {optimal : Vec} {fisher : FisherTable Float32}
    (hoptimal : optimal.size = k.parameterCount)
    (hvalid : fisher.validate k.parameterCount = .ok ()) (id : Uuid) (name : String) (importance : Float32)
    (tick : UInt64) : ∃ pruned k' task, k.consolidate id name optimal fisher importance tick = .ok (pruned, k') ∧
      k'.tasks.getLast? = some task ∧ task.optimal = optimal ∧ task.fisher = fisher := by
  unfold consolidate
  dsimp only
  rw [if_neg (not_not.mpr hoptimal), hvalid]
  refine ⟨_, _, _, rfl, List.getLast?_concat, rfl, rfl⟩

namespace Agent

variable {c : Config} {near : Config → Config → Prop} {ds : List Decision} {a b d : Agent} {env : Surroundings}
  {p q : StatePools} {s : Senses} {e : Encounter} {dt : Float32}

/-- The counters of an agent after so many writes, if it consolidates after so many of them. -/
structure InStep (k n : Nat) (a : Agent) : Prop where
  writes : a.memory.writes = UInt64.ofNat n
  since : a.writesSinceConsolidation.toNat = n % k
  samples : a.accumulator.samples = a.writesSinceConsolidation

/-! ### Learning from one write -/

/-- An agent that has written its experience down and sampled it. -/
def sampled (a : Agent) (memory : Memory) (experience : Vec) (importance : Float32)
    (gradient : List (Nat × Float32)) : Agent :=
  { a.note memory experience importance with accumulator := (a.accumulator.addAll gradient).endSample }

theorem learn_sampled {gradient : List (Nat × Float32)}
    (h : a.policyGradient p c.controller.logitScale = .ok gradient) (taskId : Uuid) (memory : Memory) (experience : Vec)
    (importance : Float32) : a.learn p c taskId memory experience importance =
      (a.sampled memory experience importance gradient).consolidateInTime c.consolidation taskId := by
  have hnote : (a.note memory experience importance).policyGradient p c.controller.logitScale = .ok gradient := h
  rw [learn_eq, sampleFisher, hnote]
  rfl

theorem written_learn (a : Agent) (p : StatePools) (c : Config) (taskId : Uuid) (memory : Memory) (experience : Vec)
    (importance : Float32) : (a.learn p c taskId memory experience importance).decision.memoryWritten = true := by
  obtain ⟨_, _, _, _, hlearn⟩ := a.learn_eq_note p c taskId memory experience importance
  rw [hlearn]
  rfl

theorem consolidateInTime_eq {c : Config.Consolidation} (hk : 0 < c.interval) (a : Agent) (taskId : Uuid) :
    a.consolidateInTime c taskId = if c.interval ≤ a.writesSinceConsolidation then a.consolidate c taskId else a := by
  unfold consolidateInTime
  rw [decide_eq_true (show c.interval > 0 from hk), Bool.true_and]
  simp only [decide_eq_true_eq, ge_iff_le]

theorem consolidations_consolidated (a : Agent) (c : Config.Consolidation) (taskId : Uuid) :
    (a.consolidated c taskId).consolidations = a.consolidator.consolidations ∨
      (a.consolidated c taskId).consolidations = a.consolidator.consolidations + 1 := by
  rcases a.estimated_consolidated c taskId with h | ⟨_, _, _, _, _, _, _, _, h⟩
  · exact .inl (congrArg Consolidator.consolidations h)
  · exact .inr (Consolidator.consolidations_of_consolidate h)

theorem consolidated_of_validate {stack : Stack} {c : Config.Consolidation} (hcontroller : a.controller = some stack)
    (hsamples : a.accumulator.samples ≠ 0) (hcount : stack.flatten.size = a.consolidator.parameterCount)
    (hvalid : (a.accumulator.finish c.minFisher c.maxDensity).validate a.consolidator.parameterCount = .ok ())
    (taskId : Uuid) : (a.consolidated c taskId).consolidations = a.consolidator.consolidations + 1 ∧ ∃ task,
      (a.consolidated c taskId).tasks.getLast? = some task ∧ task.optimal = stack.flatten ∧
        task.fisher = a.accumulator.finish c.minFisher c.maxDensity := by
  have hsome : ¬ a.accumulator.isEmpty := by simpa [Accumulator.isEmpty] using hsamples
  unfold consolidated
  simp only [hcontroller, if_neg hsome]
  obtain ⟨pruned, k', task, hk, htask⟩ := Consolidator.consolidate_of_validate hcount hvalid taskId
    (a.profile.name ++ " #" ++ toString (a.consolidator.consolidations + 1))
    (a.importanceSum / (max a.writesSinceConsolidation 1).toFloat32) a.ticks
  rw [hk]
  exact ⟨Consolidator.consolidations_of_consolidate hk, task, htask⟩

theorem InStep.succ {interval : UInt32} {n : Nat} (h : InStep interval.toNat n a) (hk : 0 < interval) :
    (a.writesSinceConsolidation + 1).toNat = n % interval.toNat + 1 := by
  have hpos : 0 < interval.toNat := hk
  have hlt := Nat.mod_lt n hpos
  have hmax := interval.toNat_lt_size
  rw [UInt32.toNat_add, h.since, UInt32.toNat_one]
  exact Nat.mod_eq_of_lt (by unfold UInt32.size at hmax; omega)

/-- It is time to consolidate when the writes fill the interval. -/
theorem InStep.due_iff {interval : UInt32} {n : Nat} (h : InStep interval.toNat n a) (hk : 0 < interval) :
    interval ≤ a.writesSinceConsolidation + 1 ↔ (n + 1) % interval.toNat = 0 := by
  have hpos : 0 < interval.toNat := hk
  have hlt := Nat.mod_lt n hpos
  rw [UInt32.le_iff_toNat_le, h.succ hk, ← Nat.mod_add_mod]
  constructor
  · intro hdue
    rw [show n % interval.toNat + 1 = interval.toNat by omega, Nat.mod_self]
  · intro hzero
    by_contra hearly
    rw [Nat.mod_eq_of_lt (by omega)] at hzero
    omega

/-- What a tick does to the counters of an agent that had written so many experiences. -/
structure Paced (k n : Nat) (a b : Agent) : Prop where
  /-- What is reported as remembered was written. -/
  written : b.decision.memoryWritten = true ↔ b.memory.writes = a.memory.writes + 1
  /-- Nothing is learned from what is not remembered. -/
  idle : b.decision.memoryWritten = false → b.memory = a.memory ∧ b.accumulator = a.accumulator ∧
    b.writesSinceConsolidation = a.writesSinceConsolidation ∧ b.importanceSum = a.importanceSum ∧
    b.consolidator = a.consolidator
  /-- At most one task is stored, and only when the writes fill the interval. -/
  stored : b.consolidator.consolidations = a.consolidator.consolidations ∨
    b.consolidator.consolidations = a.consolidator.consolidations + 1 ∧ b.decision.memoryWritten = true ∧
      (n + 1) % k = 0
  /-- Then the next samples start anew, whether a task was stored or not. -/
  anew : b.decision.memoryWritten = true → (n + 1) % k = 0 →
    b.accumulator = .ofCount a.accumulator.parameterCount ∧ b.writesSinceConsolidation = 0 ∧ b.importanceSum = 0

theorem parameterCount_sampled (a : Agent) (memory : Memory) (experience : Vec) (importance : Float32)
    (gradient : List (Nat × Float32)) :
    (a.sampled memory experience importance gradient).accumulator.parameterCount =
      a.accumulator.parameterCount := a.accumulator.size_addAll gradient

/-- **One write is one step**: the counters are in step after it, and the interval decides what becomes of the
samples. -/
theorem InStep.learn {n : Nat} (hk : 0 < c.consolidation.interval)
    (h : InStep c.consolidation.interval.toNat n a) {gradient : List (Nat × Float32)}
    (hg : a.policyGradient p c.controller.logitScale = .ok gradient) {memory : Memory}
    (hm : memory.writes = a.memory.writes + 1) (taskId : Uuid) (experience : Vec) (importance : Float32) :
    InStep c.consolidation.interval.toNat (n + 1) (a.learn p c taskId memory experience importance) ∧
      Paced c.consolidation.interval.toNat n a (a.learn p c taskId memory experience importance) := by
  have hdue := h.due_iff hk
  have hwrites : memory.writes = UInt64.ofNat (n + 1) := by
    rw [hm, h.writes, UInt64.ofNat_add]
    rfl
  have hcounted : (a.sampled memory experience importance gradient).writesSinceConsolidation =
      a.writesSinceConsolidation + 1 := rfl
  rw [learn_sampled hg, consolidateInTime_eq hk, hcounted]
  by_cases htime : c.consolidation.interval ≤ a.writesSinceConsolidation + 1
  · have hfull : (n + 1) % c.consolidation.interval.toNat = 0 := hdue.mp htime
    rw [if_pos htime]
    refine ⟨⟨hwrites, hfull.symm, rfl⟩, ⟨fun _ => hm, fun _ => rfl⟩, Bool.noConfusion, ?_, fun _ _ => ⟨?_, rfl, rfl⟩⟩
    · rcases consolidations_consolidated (a.sampled memory experience importance gradient) c.consolidation taskId
        with hsame | hnext
      · exact .inl hsame
      · exact .inr ⟨hnext, rfl, hfull⟩
    · exact congrArg Accumulator.ofCount (parameterCount_sampled a memory experience importance gradient)
  · have hleft : (n + 1) % c.consolidation.interval.toNat ≠ 0 := fun hzero => htime (hdue.mpr hzero)
    rw [if_neg htime]
    refine ⟨⟨hwrites, ?_, ?_⟩, ⟨fun _ => hm, fun _ => rfl⟩, Bool.noConfusion, .inl rfl,
      fun _ hzero => absurd hzero hleft⟩
    · show (a.writesSinceConsolidation + 1).toNat = (n + 1) % c.consolidation.interval.toNat
      rw [UInt32.le_iff_toNat_le, h.succ hk] at htime
      rw [h.succ hk, ← Nat.mod_add_mod, Nat.mod_eq_of_lt (Nat.not_le.mp htime)]
    · show (a.accumulator.addAll gradient).samples + 1 = a.writesSinceConsolidation + 1
      rw [Accumulator.samples_addAll, h.samples]

/-! ### Ticks -/

theorem InStep.of_eq {k n : Nat} (h : InStep k n a) (hmemory : b.memory = a.memory)
    (hsince : b.writesSinceConsolidation = a.writesSinceConsolidation)
    (hsamples : b.accumulator.samples = a.accumulator.samples) : InStep k n b :=
  ⟨hmemory ▸ h.writes, hsince ▸ h.since, hsamples.trans (h.samples.trans hsince.symm)⟩

/-- Feeling and deciding leaves all counters alone. -/
theorem Poised.paced {k n : Nat} (h : Poised a d) (hb : Paced k n d b) : Paced k n a b where
  written := h.memory ▸ hb.written
  idle := by
    rw [← h.memory, ← h.accumulator, ← h.writesSinceConsolidation, ← h.importanceSum, ← h.consolidator]
    exact hb.idle
  stored := h.consolidator ▸ hb.stored
  anew := h.accumulator ▸ hb.anew

theorem paced_forgo (k n : Nat) (d : Agent) : Paced k n d d.forgo where
  written := ⟨Bool.noConfusion, fun h => absurd (UInt64.left_eq_add.mp h) (by decide)⟩
  idle _ := ⟨rfl, rfl, rfl, rfl, rfl⟩
  stored := .inl rfl
  anew := Bool.noConfusion

/-- What is said of a decision is no matter of counting. -/
theorem Paced.express {k n : Nat} (h : Paced k n a b) (e : Encounter) : Paced k n a (b.express e) := by
  obtain ⟨decision, hexpress, -, hwritten⟩ := b.express_decision e
  rw [hexpress]
  obtain ⟨hw, hidle, hstored, hanew⟩ := h
  rw [← hwritten] at hw hidle hstored hanew
  exact ⟨hw, hidle, hstored, hanew⟩

/-- **A tick keeps the counters in step.** -/
theorem InStep.tick {n : Nat} (hk : 0 < env.config.consolidation.interval)
    (h : InStep env.config.consolidation.interval.toNat n a) {shared : Stack} (hne : shared.layers ≠ [])
    {states : List CellState} (hfit : Tailored shared a states) (hv : Sees p.layers a.handles states)
    (ht : a.tick env p s e dt = .ok (b, q)) :
    InStep env.config.consolidation.interval.toNat (n + if b.decision.memoryWritten then 1 else 0) b ∧
      Paced env.config.consolidation.interval.toNat n a b := by
  obtain ⟨next, rfl, hnext⟩ := tick_states ht hv hfit.states
  obtain ⟨d, hd, rfl | ⟨hon, experience, strength, stored, memory, hwrite, rfl⟩⟩ := tick_cases ht
  · obtain ⟨decision, hexpress, -, hwritten⟩ := d.forgo.express_decision e
    have hsame : InStep env.config.consolidation.interval.toNat n d :=
      h.of_eq hd.memory hd.writesSinceConsolidation (congrArg Accumulator.samples hd.accumulator)
    refine ⟨?_, hd.paced ((paced_forgo _ n d).express e)⟩
    rw [hexpress, show decision.memoryWritten = false from hwritten]
    exact ⟨hsame.writes, hsame.since, hsame.samples⟩
  · have hsame : InStep env.config.consolidation.interval.toNat n d :=
      h.of_eq hd.memory hd.writesSinceConsolidation (congrArg Accumulator.samples hd.accumulator)
    have hsees : Sees (p.put a.handles next).layers d.handles next := by
      rw [hd.handles]
      exact sees_putAll hv (hnext.length_eq.symm.trans hfit.states.length_eq)
    have hfit' : Tailored shared d next := ⟨hd.controller ▸ hfit.fits, hd.controller ▸ hnext⟩
    obtain ⟨gradient, hg⟩ := hfit'.policyGradient_ok hne hsees (hd.controller ▸ hd.attached hon)
      env.config.controller.logitScale
    have hm : memory.writes = d.memory.writes + 1 := by
      rw [Memory.writes_of_write hwrite, hd.memory]
    obtain ⟨hstep, hpaced⟩ := hsame.learn hk hg hm env.taskId experience d.decision.memoryWriteSignal
    refine ⟨?_, hd.paced (hpaced.express e)⟩
    have hlearned := d.written_learn (p.put a.handles next) env.config env.taskId memory experience
      d.decision.memoryWriteSignal
    generalize d.learn _ _ _ _ _ _ = l at hstep hlearned ⊢
    obtain ⟨decision, hexpress, -, hwritten⟩ := l.express_decision e
    rw [hexpress, show decision.memoryWritten = true from hwritten.trans hlearned]
    exact ⟨hstep.writes, hstep.since, hstep.samples⟩

/-! ### Many ticks -/

/-- How many of the decisions were remembered. -/
def remembered (ds : List Decision) : Nat := ds.countP (·.memoryWritten)

theorem remembered_cons (d : Decision) (ds : List Decision) :
    remembered (d :: ds) = remembered ds + if d.memoryWritten then 1 else 0 := List.countP_cons

/-- **The counters of an agent stay in step** through whatever happens to it. -/
theorem Chronicled.inStep (h : a.Chronicled Eq c ds) (hk : 0 < c.consolidation.interval) :
    InStep c.consolidation.interval.toNat (remembered ds) a := by
  induction h with
  | spawned _ hass =>
    obtain ⟨_, memory, _, hmemory, -, rfl⟩ := assemble_cases hass
    exact ⟨by rw [Memory.eq_empty_of_ofConfig hmemory]; rfl, (Nat.zero_mod _).symm, rfl⟩
  | @ticked c ds a b env p q shared states s e dt _ henv hshared hfit hv ht ih =>
    subst henv
    obtain ⟨hstep, -⟩ := (ih hk).tick hk (Stack.layers_ne_nil hshared) hfit hv ht
    rw [remembered_cons]
    exact ⟨hstep.writes, hstep.since, hstep.samples⟩
  | reset => exact ⟨rfl, (Nat.zero_mod _).symm, rfl⟩
  | rewarded _ hr ih =>
    obtain ⟨_, _, rfl⟩ := of_reinforce hr
    exact ⟨(ih hk).writes, (ih hk).since, (ih hk).samples⟩
  | shifted _ _ ih => exact ⟨(ih hk).writes, (ih hk).since, (ih hk).samples⟩
  | resumed _ hnear hm _ _ hv hr ih =>
    subst hnear
    have hafter := takesAfter_of_restore hv hr
    refine ⟨?_, ?_, ?_⟩
    · rw [Memory.writes_of_restore hafter.memory, Memory.writes_of_record hm]
      exact (ih hk).writes
    · rw [hafter.writesSinceConsolidation]
      exact (ih hk).since
    · rw [Accumulator.samples_of_restore hafter.accumulator, hafter.writesSinceConsolidation]
      exact (ih hk).samples

end Agent

variable {c : Config} {w : Society} {id : Uuid} {a : Agent}

/-! ### Agents that remember every tick -/

/-- Where `c` is `Retentive`, an agent comes to any number of remembered ticks. -/
theorem Native.remembers (hw : Native c w) (hc : c.Steady w.controller) (hretentive : c.Retentive) {p : Profile}
    {binding : Binding} (hb : binding ≠ .detached) (h : (w.spawnWith p binding).1 = .ok id) (n : Nat) :
    ∃ w' a states ds, Society.Awake c p.id w' a states ∧ a.Chronicled Eq c ds ∧ Agent.remembered ds = n := by
  induction n with
  | zero =>
    obtain ⟨a, states, handles, left, hawake, hass⟩ := hw.awake hc hb h
    exact ⟨_, a, states, [], hawake, .spawned hw.genuine.sound.owned.stack hass, rfl⟩
  | succ n ih =>
    obtain ⟨w', a, states, ds, hawake, hds, rfl⟩ := ih
    obtain ⟨b, next, ht, -, hnext, -, hwritten⟩ := hawake.tick default default 0 default
    have hsound := hawake.native.genuine.sound
    have hfit := (hsound.whole _ a states hawake.holds).tailored
    refine ⟨_, _, next, _, hnext, hds.ticked hsound.owned.config hsound.owned.stack hfit hawake.holds.sees ht, ?_⟩
    rw [Agent.remembered_cons, hwritten hretentive, if_pos rfl]

/-- Agents remember every tick and consolidate after every third one. -/
abbrev Config.everyThird : Config := { temper := { writeThreshold := -1 }, consolidation := { interval := 3 } }

theorem exists_remembered_by_threes (n : Nat) : ∃ w a states, Society.Awake .everyThird ⟨1, 2⟩ w a states ∧
    Agent.InStep 3 n a := by
  obtain ⟨w₀, hw₀, hspawn⟩ : ∃ w, Native .everyThird w ∧
      (w.spawnWith ⟨⟨1, 2⟩, "Vex", .rogue, none⟩ .shared).1 = .ok ⟨1, 2⟩ := ⟨_, .start .scalar rfl, rfl⟩
  have hsteady := hw₀.genuine.steady rfl (by decide) (by decide)
  obtain ⟨w, a, states, ds, hawake, hds, rfl⟩ :=
    hw₀.remembers hsteady ⟨by decide, by decide⟩ (by decide) hspawn n
  exact ⟨w, a, states, hawake, hds.inStep (by decide)⟩

/-! ### All agents -/

/-- **The counters stay in step.** Let `ds` be the decisions of `a` since it was spawned or last reset, and `k` the
interval. `memory.writes` is the number `n` of the remembered ones, as a word of 64 bits, `writesSinceConsolidation` is
`n % k`, and there is a sample for each of these writes. So `writesSinceConsolidation` is also the remainder of
`memory.writes` as long as `n` fits a word, and for every `n` if `k` divides `2 ^ 64`. Each tick that succeeds leads to
an agent `b` with `Agent.Paced k n a b`: it was written if and only if it reports so, else it left the memory, the
samples and the tasks alone, and it stored at most one task, with the write that fills the interval. -/
theorem Native.consolidates_in_step (hw : Native c w) (hk : 0 < c.consolidation.interval)
    (ha : w.agent id = .ok a) : ∃ ds, a.Chronicled Eq c ds ∧
      a.memory.writes = UInt64.ofNat (Agent.remembered ds) ∧
      a.writesSinceConsolidation.toNat = Agent.remembered ds % c.consolidation.interval.toNat ∧
      (Agent.remembered ds < UInt64.size ∨ c.consolidation.interval.toNat ∣ UInt64.size →
        a.writesSinceConsolidation.toNat = a.memory.writes.toNat % c.consolidation.interval.toNat) ∧
      a.accumulator.samples = a.writesSinceConsolidation ∧
      ∀ s e dt taskId d w', w.tick id s e dt taskId = (.ok d, w') → ∃ b, w'.agent id = .ok b ∧ b.decision = d ∧
        b.Chronicled Eq c (d :: ds) ∧
        Agent.Paced c.consolidation.interval.toNat (Agent.remembered ds) a b := by
  obtain ⟨states, hheld⟩ := hw.genuine.sound.owned.holds_agent ha
  have hfit := (hw.genuine.sound.whole id a states hheld).tailored
  have hstack := hw.genuine.sound.owned.stack
  have hconfig (taskId : Uuid) : (w.surroundings taskId).config = c := hw.genuine.sound.owned.config
  obtain ⟨ds, hds⟩ := hw.chronicled.holds id a states hheld
  have hstep := hds.inStep hk
  refine ⟨ds, hds, hstep.writes, hstep.since, fun hn => ?_, hstep.samples, fun s e dt taskId d w' htick => ?_⟩
  · rw [hstep.since, hstep.writes, UInt64.toNat_ofNat']
    rcases hn with hn | hk
    · rw [Nat.mod_eq_of_lt hn]
    · rw [Nat.mod_mod_of_dvd _ hk]
  · obtain ⟨b, next, ht, rfl, hheld', -⟩ := hheld.of_tick htick
    refine ⟨_, hheld'.agent, rfl, hds.ticked (hconfig taskId) hstack hfit hheld.sees ht, ?_⟩
    rw [← hconfig taskId] at hk hstep ⊢
    obtain ⟨-, hpaced⟩ := hstep.tick hk (Stack.layers_ne_nil hstack) hfit hheld.sees ht
    exact ⟨hpaced.written, hpaced.idle, hpaced.stored, hpaced.anew⟩

/-- After two writes, the next tick is the third one: it is written, and the counters start anew. -/
theorem consolidates_in_step_at_third_write : ∃ w a, Native .everyThird w ∧ w.agent ⟨1, 2⟩ = .ok a ∧
    a.memory.writes = 2 ∧ a.writesSinceConsolidation = 2 ∧ a.accumulator.samples = 2 ∧
    ∀ s e dt taskId, ∃ d w' b, w.tick ⟨1, 2⟩ s e dt taskId = (.ok d, w') ∧ w'.agent ⟨1, 2⟩ = .ok b ∧
      d.memoryWritten = true ∧ b.memory.writes = 3 ∧ b.writesSinceConsolidation = 0 ∧
      b.accumulator.samples = 0 ∧ b.importanceSum = 0 := by
  obtain ⟨w, a, states, hawake, hstep⟩ := exists_remembered_by_threes 2
  obtain ⟨ds, -, -, hsince, -, hsamples, hticks⟩ := hawake.native.consolidates_in_step (by decide) hawake.holds.agent
  have htwo : a.writesSinceConsolidation = 2 := UInt32.toNat_inj.mp hstep.since
  refine ⟨w, a, hawake.native, hawake.holds.agent, hstep.writes, htwo, hsamples.trans htwo, fun s e dt taskId => ?_⟩
  obtain ⟨b, next, ht, hok, hnext, -, hwritten⟩ := hawake.tick s e dt taskId
  have hwritten : b.decision.memoryWritten = true := hwritten ⟨by decide, by decide⟩
  obtain ⟨b', hb', hdecision, -, hpaced⟩ := hticks s e dt taskId b.decision _ (Prod.ext hok rfl)
  have hfull : (Agent.remembered ds + 1) % 3 = 0 := by
    have hsince : a.writesSinceConsolidation.toNat = Agent.remembered ds % 3 := hsince
    have htwo : a.writesSinceConsolidation.toNat = 2 := congrArg UInt32.toNat htwo
    omega
  rw [← hdecision] at hwritten
  obtain ⟨hanew, hzero, hsum⟩ := hpaced.anew hwritten hfull
  refine ⟨b'.decision, _, b', Prod.ext (hok.trans (congrArg _ hdecision.symm)) rfl, hb', hwritten, ?_, hzero, ?_, hsum⟩
  · rw [hpaced.written.mp hwritten, hstep.writes]
    rfl
  · rw [hanew]
    rfl

/-- The counter of writes has 64 bits, and `2 ^ 64` is no multiple of 3: after as many writes, `memory.writes` is back
at zero but the agent is one write past a consolidation. -/
theorem writes_wrap_between_consolidations : ∃ w a, Native .everyThird w ∧ w.agent ⟨1, 2⟩ = .ok a ∧
    a.binding ≠ .detached ∧ a.memory.writes = 0 ∧ a.writesSinceConsolidation = 1 ∧
    a.writesSinceConsolidation.toNat ≠ a.memory.writes.toNat % Config.everyThird.consolidation.interval.toNat := by
  obtain ⟨w, a, states, hawake, hstep⟩ := exists_remembered_by_threes UInt64.size
  have hwrites : a.memory.writes = 0 := hstep.writes.trans (by decide)
  have hsince : a.writesSinceConsolidation = 1 := UInt32.toNat_inj.mp hstep.since
  refine ⟨w, a, hawake.native, hawake.holds.agent, hawake.attached, hwrites, hsince, ?_⟩
  rw [hwrites, hsince]
  decide

end NpcMind
