import NpcMind.Proofs.Cadence
import NpcMind.Proofs.RoundTrip

/-!
# Which task is given up

Where the oldest task is to be given up, its age is read off the stamp that the agent's clock gave it. The
first task with the least stamp goes. As long as the clock only goes forward the stamps ascend in the order
in which tasks were stored, and that is the first task of all. A reset turns the clock back while tasks
stay, and from then on a new task may look older than all the others.
-/

namespace NpcMind

open StatePools Outcome Layout

namespace Consolidator

variable {k k' : Consolidator}

/-! ### The task of least stamp -/

/-- The stamps of the tasks, in the order in which they were stored. -/
def stamps (k : Consolidator) : List UInt64 := k.tasks.map Task.createdTick

/-- The stamps without the first of the least ones. -/
def withoutLeast (stamps : List UInt64) : List UInt64 := stamps.eraseP fun t => stamps.all fun u => t ≤ u

theorem withoutLeast_eq {before after : List UInt64} {t : UInt64} (hfront : ∀ u ∈ before, t < u)
    (hbehind : ∀ u ∈ after, t ≤ u) : withoutLeast (before ++ t :: after) = before ++ after := by
  have hleast : ((before ++ t :: after).all fun u => t ≤ u) = true := by
    refine List.all_eq_true.mpr fun u hu => decide_eq_true ?_
    rcases List.mem_append.mp hu with hu | hu
    · exact UInt64.le_of_lt (hfront u hu)
    · rcases List.mem_cons.mp hu with rfl | hu
      · exact UInt64.le_refl u
      · exact hbehind u hu
  rw [withoutLeast, List.eraseP_append_right, List.eraseP_cons_of_pos]
  · exact hleast
  intro u hu hall
  have hle : u ≤ t := of_decide_eq_true (List.all_eq_true.mp hall t (by simp))
  exact absurd (hfront u hu) (UInt64.not_lt.mpr hle)

theorem victim?_oldest (hp : k.prunePolicy = .oldest) : k.victim? = (best? older k.tasks).map Prod.fst := by
  rw [victim?, hp]
  exact leastBy_eq older k.tasks

/-- Under the policy that gives up the oldest, the first task of least stamp goes. -/
theorem victim_least (hp : k.prunePolicy = .oldest) {i : Nat} (hi : k.victim? = some i) :
    ∃ before t after, k.tasks = before ++ t :: after ∧ before.length = i ∧
      (∀ u ∈ before, t.createdTick < u.createdTick) ∧ ∀ u ∈ after, t.createdTick ≤ u.createdTick := by
  rw [victim?_oldest hp] at hi
  obtain ⟨-, hnone⟩ | ⟨before, t, after, htasks, hsome, hleast⟩ := best?_spec ranks_older k.tasks
  · rw [hnone] at hi
    cases hi
  · rw [hsome] at hi
    exact ⟨before, t, after, htasks, Option.some.inj hi, fun u hu => older_iff.mp (hleast.front u hu),
      fun u hu => not_older_iff.mp (hleast.behind u hu)⟩

theorem stamps_eraseIdx (hp : k.prunePolicy = .oldest) {i : Nat} (hi : k.victim? = some i) :
    (k.tasks.eraseIdx i).map Task.createdTick = withoutLeast k.stamps := by
  obtain ⟨before, t, after, hsplit, rfl, hfront, hbehind⟩ := victim_least hp hi
  rw [stamps, hsplit, List.eraseIdx_append_of_length_le (Nat.le_refl _), Nat.sub_self, List.eraseIdx_cons_zero,
    List.map_append, List.map_append, List.map_cons]
  exact (withoutLeast_eq (List.forall_mem_map.mpr hfront) (List.forall_mem_map.mpr hbehind)).symm

/-- The last task is given up before all others if its stamp is less than theirs. -/
theorem victim_last (hp : k.prunePolicy = .oldest) {kept : List (Task Float32)} {new : Task Float32}
    (htasks : k.tasks = kept ++ [new]) (hless : ∀ u ∈ kept, new.createdTick < u.createdTick) :
    k.victim? = some kept.length := by
  obtain ⟨i, hi, hlt⟩ := victim?_lt (k := k) (by simp [htasks])
  obtain ⟨before, t, after, hsplit, rfl, -, hbehind⟩ := victim_least hp hi
  rw [hi]
  rw [htasks] at hsplit hlt
  rcases List.eq_nil_or_concat after with rfl | ⟨rest, last, rfl⟩
  · have hlen := congrArg List.length hsplit
    simp only [List.length_append, List.length_singleton] at hlen
    congr 1
    omega
  · -- The last task would be behind one of no greater stamp.
    obtain ⟨hkept, hnew⟩ : kept = before ++ t :: rest ∧ new = last := by
      rw [List.concat_eq_append, ← List.cons_append, ← List.append_assoc] at hsplit
      have := List.append_inj' hsplit rfl
      exact ⟨this.1, List.singleton_inj.mp this.2⟩
    have hle := hbehind last (by simp)
    have hgt := hless t (by simp [hkept])
    rw [hnew] at hgt
    exact absurd hgt (UInt64.not_lt.mpr hle)

/-! ### Storing a task -/

/-- Storing a task appends it, after another one was given up if there was no room. -/
theorem of_consolidate {id : Uuid} {name : String} {optimal : Vec} {fisher : FisherTable Float32} {importance : Float32}
    {tick : UInt64} {pruned : Option (Task Float32)}
    (h : k.consolidate id name optimal fisher importance tick = .ok (pruned, k')) :
    ∃ kept new, new.createdTick = tick ∧ k'.prunePolicy = k.prunePolicy ∧ k'.tasks = kept ++ [new] ∧
      (kept = k.tasks ∧ (k.tasks.length < k.maxTasks ∨ k.tasks = []) ∨
        k.maxTasks ≤ k.tasks.length ∧ ∃ i, k.victim? = some i ∧ kept = k.tasks.eraseIdx i) := by
  unfold Consolidator.consolidate at h
  dsimp only at h
  split at h
  · cases h
  · obtain ⟨_, -, h⟩ := ok_of_bind h
    cases h
    unfold makeRoom
    by_cases hroom : k.tasks.length < k.maxTasks
    · rw [if_pos hroom]
      exact ⟨k.tasks, _, rfl, rfl, rfl, .inl ⟨rfl, .inl hroom⟩⟩
    · rw [if_neg hroom]
      by_cases hne : k.tasks = []
      · have hnone : k.victim? = none := by
          unfold victim?
          rw [hne]
          cases k.prunePolicy <;> rfl
        rw [hnone]
        exact ⟨k.tasks, _, rfl, rfl, rfl, .inl ⟨rfl, .inr hne⟩⟩
      · obtain ⟨i, hi, -⟩ := victim?_lt hne
        rw [hi]
        exact ⟨k.tasks.eraseIdx i, _, rfl, rfl, rfl, .inr ⟨by omega, i, rfl, rfl⟩⟩

/-- The stamps after storing a task, if the oldest is to be given up for it. -/
def stampsAfter (maxTasks : Nat) (stamps : List UInt64) (tick : UInt64) : List UInt64 :=
  (if stamps.length < maxTasks then stamps else withoutLeast stamps) ++ [tick]

theorem stamps_of_consolidate (hp : k.prunePolicy = .oldest) {id : Uuid} {name : String} {optimal : Vec}
    {fisher : FisherTable Float32} {importance : Float32} {tick : UInt64} {pruned : Option (Task Float32)}
    (h : k.consolidate id name optimal fisher importance tick = .ok (pruned, k')) :
    k'.stamps = stampsAfter k.maxTasks k.stamps tick := by
  have hlength : k.stamps.length = k.tasks.length := List.length_map _
  obtain ⟨kept, new, rfl, -, htasks, hkept⟩ := of_consolidate h
  rw [stampsAfter, stamps, htasks, List.map_append, List.map_singleton, hlength]
  congr 1
  obtain ⟨rfl, hlt | hnil⟩ | ⟨hfull, i, hi, rfl⟩ := hkept
  · rw [if_pos hlt, stamps]
  · rw [stamps, hnil]
    split <;> rfl
  · rw [if_neg (by omega), stamps_eraseIdx hp hi]

end Consolidator

/-! ### Storing every tick -/

/-- No average is above an infinite minimum, so a table with that minimum is empty, and accepted. -/
theorem Accumulator.validate_finish_infinity (a : Accumulator) (maxDensity : Float32) :
    (a.finish Single.infinity maxDensity).validate a.parameterCount = .ok () := by
  have hempty (e : Nat × Float32) (he : e ∈ (a.finish Single.infinity maxDensity).entries) : False := by
    obtain ⟨-, i, x, -, hlt, -⟩ := of_mem_finish he
    exact Single.not_lt_of_infinite rfl hlt
  exact (FisherTable.validate_iff (a.ascending_finish _ _)).mpr
    ⟨rfl, fun e he => (hempty e he).elim, fun e he => (hempty e he).elim⟩

/-- Every tick that an agent decides on its own is remembered and stored as a task, and if there is no room the oldest
task is given up for it. The tables of these tasks are empty. -/
structure Config.Diligent (c : Config) : Prop where
  retentive : c.Retentive
  interval : c.consolidation.interval = 1
  minFisher : c.consolidation.minFisher = Single.infinity
  oldest : c.consolidation.prunePolicy = .oldest

namespace Agent

variable {c : Config} {a b : Agent} {p q : StatePools} {env : Surroundings}

/-- Where `c` is `Diligent`, what is written is stored as a task. -/
theorem consolidations_learn {n : Nat} (hc : c.Diligent) (h : InStep 1 n a) {gradient : List (Nat × Float32)}
    (hg : a.policyGradient p c.controller.logitScale = .ok gradient) {stack : Stack} (hs : a.controller = some stack)
    (hcount : stack.flatten.size = a.consolidator.parameterCount)
    (hsums : a.accumulator.parameterCount = a.consolidator.parameterCount) (taskId : Uuid) (memory : Memory)
    (experience : Vec) (importance : Float32) :
    (a.learn p c taskId memory experience importance).consolidator.consolidations =
      a.consolidator.consolidations + 1 := by
  have hsince : a.writesSinceConsolidation = 0 := UInt32.toNat_inj.mp (h.since.trans (Nat.mod_one n))
  have hsamples : (a.sampled memory experience importance gradient).accumulator.samples = 1 := by
    show (a.accumulator.addAll gradient).samples + 1 = 1
    rw [Accumulator.samples_addAll, h.samples, hsince]
    rfl
  have hdue : c.consolidation.interval ≤
      (a.sampled memory experience importance gradient).writesSinceConsolidation := by
    show c.consolidation.interval ≤ a.writesSinceConsolidation + 1
    rw [hc.interval, hsince]
    decide
  have hvalid := (a.sampled memory experience importance gradient).accumulator.validate_finish_infinity
    c.consolidation.maxDensity
  rw [parameterCount_sampled, hsums, ← hc.minFisher] at hvalid
  rw [learn_sampled hg, consolidateInTime_eq (by rw [hc.interval]; decide), if_pos hdue]
  exact (consolidated_of_validate (a := a.sampled memory experience importance gradient) hs
    (by rw [hsamples]; decide) hcount hvalid taskId).1

theorem consolidations_of_tick {n : Nat} (hc : env.config.Diligent) (h : InStep 1 n a) {shared : Stack}
    (hne : shared.layers ≠ []) {states : List CellState} (hwhole : Whole env.config shared a states)
    (hv : Sees p.layers a.handles states) {s : Senses} {e : Encounter} {dt : Float32}
    (ht : a.tick env p s e dt = .ok (b, q)) (hwritten : b.decision.memoryWritten = true) :
    b.consolidator.consolidations = a.consolidator.consolidations + 1 := by
  obtain ⟨next, rfl, hnext⟩ := tick_states ht hv hwhole.states
  obtain ⟨d, hd, rfl | ⟨hon, experience, strength, stored, memory, hwrite, rfl⟩⟩ := tick_cases ht
  · obtain ⟨decision, hexpress, -, hforgone⟩ := d.forgo.express_decision e
    rw [hexpress, hforgone] at hwritten
    cases hwritten
  · have hsees : Sees (p.put a.handles next).layers d.handles next := by
      rw [hd.handles]
      exact sees_putAll hv (hnext.length_eq.symm.trans hwhole.states.length_eq)
    have hfit : Tailored shared d next := ⟨hd.controller ▸ hwhole.tailored.fits, hd.controller ▸ hnext⟩
    obtain ⟨gradient, hg⟩ := hfit.policyGradient_ok hne hsees (hd.controller ▸ hd.attached hon)
      env.config.controller.logitScale
    obtain ⟨stack, hstack⟩ := Option.isSome_iff_exists.mp (hd.attached hon)
    have hparameters : a.consolidator.parameterCount = stack.parameterCount := by
      rw [hwhole.sound.consolidator.parameterCount, hstack, countOf, Option.map_some, Option.getD_some]
    have hsums : a.accumulator.parameterCount = a.consolidator.parameterCount :=
      hwhole.sound.accumulator.size.trans hwhole.sound.consolidator.parameterCount.symm
    have hcount : stack.flatten.size = a.consolidator.parameterCount :=
      (Stack.size_flatten_of_fits (hwhole.sound.bound.fits hstack).2.self.layers).trans hparameters.symm
    have hstep : InStep 1 n d :=
      h.of_eq hd.memory hd.writesSinceConsolidation (congrArg Accumulator.samples hd.accumulator)
    rw [← hd.consolidator] at hcount hsums ⊢
    rw [← hd.accumulator] at hsums
    exact consolidations_learn hc hstep hg (hd.controller.trans hstack) hcount hsums env.taskId memory experience
      d.decision.memoryWriteSignal

end Agent

namespace Society.Awake

variable {c : Config} {w : Society} {id : Uuid} {a : Agent} {states : List CellState}

/-- Where `c` is `Diligent`, a tick of an agent that is awake stores a task. -/
theorem stores (h : Awake c id w a states) (hc : c.Diligent) (s : Senses) (e : Encounter) (dt : Float32)
    (taskId : Uuid) : ∃ b next, a.tick (w.surroundings taskId) w.pools s e dt = .ok (b, w.pools.put a.handles next) ∧
      Awake c id (w.tick id s e dt taskId).2 { b with gossip := none } next ∧ b.ticks = a.ticks + 1 ∧
      b.consolidator.stamps =
        Consolidator.stampsAfter c.consolidation.maxTasks a.consolidator.stamps (a.ticks + 1) := by
  obtain ⟨b, next, ht, -, hnext, -, hretained⟩ := h.tick s e dt taskId
  have hwritten : b.decision.memoryWritten = true := hretained hc.retentive
  have hsound := (h.native.genuine.sound.whole id a states h.holds).sound
  refine ⟨b, next, ht, hnext, (Agent.ticked_of_tick ht).ticks, ?_⟩
  rw [← hsound.consolidator.maxTasks]
  have hpolicy : a.consolidator.prunePolicy = .oldest := hsound.consolidator.prunePolicy.trans hc.oldest
  obtain hsame | ⟨_, _, _, _, _, _, hk⟩ := (Agent.ticked_of_tick ht).consolidator
  · obtain ⟨ds, hds⟩ := h.native.chronicled.holds id a states h.holds
    have hsound := h.native.genuine.sound
    have hconfig : (w.surroundings taskId).config = c := hsound.owned.config
    have hstep := hds.inStep (by rw [hc.interval]; decide)
    rw [hc.interval] at hstep
    subst hconfig
    have hcount := Agent.consolidations_of_tick hc hstep (Stack.layers_ne_nil hsound.owned.stack)
      (hsound.whole id a states h.holds) h.holds.sees ht hwritten
    rw [hsame] at hcount
    exact absurd (UInt64.left_eq_add.mp hcount) (by decide)
  · exact Consolidator.stamps_of_consolidate hpolicy hk

end Society.Awake

namespace Society

variable {c : Config} {w : Society} {id : Uuid} {ticks : UInt64} {stamps : List UInt64}

/-- The agent `id` is awake, its clock is at `ticks`, and its tasks have these stamps. -/
def Stamped (c : Config) (id : Uuid) (ticks : UInt64) (stamps : List UInt64) (w : Society) : Prop :=
  ∃ a states, Awake c id w a states ∧ a.ticks = ticks ∧ a.consolidator.stamps = stamps

theorem Stamped.tick (h : w.Stamped c id ticks stamps) (hc : c.Diligent) (s : Senses) (e : Encounter) (dt : Float32)
    (taskId : Uuid) : (w.tick id s e dt taskId).2.Stamped c id (ticks + 1)
      (Consolidator.stampsAfter c.consolidation.maxTasks stamps (ticks + 1)) := by
  obtain ⟨a, states, hawake, rfl, rfl⟩ := h
  obtain ⟨b, next, -, hnext, hticks, hstamps⟩ := hawake.stores hc s e dt taskId
  exact ⟨_, next, hnext, hticks, hstamps⟩

/-- A reset sets the clock back and keeps the tasks. -/
theorem Stamped.reset (h : w.Stamped c id ticks stamps) : (w.reset id).2.Stamped c id 0 stamps := by
  obtain ⟨a, states, hawake, rfl, rfl⟩ := h
  exact ⟨_, _, hawake.reset, rfl, rfl⟩

theorem stamped_spawned (hw : Native c w) (hc : c.Steady w.controller) {p : Profile} {binding : Binding}
    (hb : binding ≠ .detached) (h : (w.spawnWith p binding).1 = .ok id) :
    (w.spawnWith p binding).2.Stamped c p.id 0 [] := by
  obtain ⟨a, states, _, _, hawake, hass⟩ := hw.awake hc hb h
  obtain ⟨_, _, _, -, hk, rfl⟩ := Agent.assemble_cases hass
  obtain ⟨_, -, hk⟩ := ok_of_bind hk
  obtain ⟨_, -, hk⟩ := ok_of_bind hk
  cases hk
  exact ⟨_, states, hawake, rfl, rfl⟩

end Society

/-- Agents store every tick as a task, and keep two tasks. -/
abbrev Config.eachTick : Config where
  temper := { writeThreshold := -1 }
  consolidation := { interval := 1, maxTasks := 2, minFisher := Single.infinity, prunePolicy := .oldest }

namespace Agent

variable {c : Config} {events : List Event} {a b : Agent} {p q : StatePools} {env : Surroundings}

/-! ### Stamps -/

theorem Lived.fits (h : a.Lived c events) (hmax : c.consolidation.maxTasks ≠ 0) :
    ∃ count, a.consolidator.Fits count c.consolidation := by
  induction h with
  | spawned hass =>
    obtain ⟨_, _, _, -, hk, rfl⟩ := assemble_cases hass
    exact ⟨_, Consolidator.fits_ofConfig hk⟩
  | ticked _ _ ht ih =>
    obtain ⟨count, hfits⟩ := ih hmax
    obtain heq | ⟨_, _, _, _, _, _, hk⟩ := (ticked_of_tick ht).consolidator
    · dsimp only
      rw [heq]
      exact ⟨count, hfits⟩
    · exact ⟨count, hfits.consolidate hmax hk⟩
  | reset _ ih => exact ih hmax
  | rewarded _ hr ih =>
    obtain ⟨_, _, rfl⟩ := of_reinforce hr
    exact ih hmax
  | shifted _ _ ih => exact ih hmax
  | resumed _ _ hass hv hrestore _ =>
    obtain ⟨-, -, -, hk⟩ := resumed_of_restore hv hrestore
    obtain ⟨_, _, _, -, hk₀, rfl⟩ := assemble_cases hass
    exact ⟨_, ((Consolidator.fits_ofConfig hk₀).restore hk).1⟩

/-- The stamps of the tasks ascend, and none is past the clock. -/
structure Aligned (a : Agent) : Prop where
  ascending : a.consolidator.tasks.Pairwise fun t u => t.createdTick < u.createdTick
  past : ∀ t ∈ a.consolidator.tasks, t.createdTick ≤ a.ticks

/-- A tick keeps the stamps in order if the clock goes forward. -/
theorem Aligned.ticked (h : a.Aligned) {s : Senses} {e : Encounter} {dt : Float32}
    (ht : Ticked env s e dt a b) (hforward : a.ticks < a.ticks + 1) : b.Aligned := by
  have hpast (t : Task Float32) (hmem : t ∈ a.consolidator.tasks) : t.createdTick < a.ticks + 1 :=
    UInt64.lt_of_le_of_lt (h.past t hmem) hforward
  obtain heq | ⟨_, _, _, _, _, _, hk⟩ := ht.consolidator
  · refine ⟨heq ▸ h.ascending, fun t hmem => ?_⟩
    rw [heq] at hmem
    rw [ht.ticks]
    exact UInt64.le_of_lt (hpast t hmem)
  · obtain ⟨kept, new, hnew, -, htasks, hkept⟩ := Consolidator.of_consolidate hk
    have hsub : kept.Sublist a.consolidator.tasks := by
      obtain ⟨rfl, -⟩ | ⟨-, i, -, rfl⟩ := hkept
      · exact List.Sublist.refl _
      · exact List.eraseIdx_sublist _ _
    constructor
    · rw [htasks, List.pairwise_append]
      refine ⟨h.ascending.sublist hsub, List.pairwise_singleton _ _, fun t hmem u hu => ?_⟩
      rw [List.mem_singleton.mp hu, hnew]
      exact hpast t (hsub.subset hmem)
    · intro t hmem
      rw [htasks] at hmem
      rw [ht.ticks]
      rcases List.mem_append.mp hmem with hmem | hmem
      · exact UInt64.le_of_lt (hpast t (hsub.subset hmem))
      · rw [List.mem_singleton.mp hmem, hnew]
        exact UInt64.le_refl _

theorem lt_succ_of_ticks {n : Nat} (hticks : a.ticks.toNat ≤ n) (hn : n + 1 < UInt64.size) :
    a.ticks < a.ticks + 1 ∧ (a.ticks + 1).toNat = a.ticks.toNat + 1 := by
  have hsize : UInt64.size = 18446744073709551616 := rfl
  have hnat : (a.ticks + 1).toNat = a.ticks.toNat + 1 := by
    rw [UInt64.toNat_add, UInt64.toNat_one]
    exact Nat.mod_eq_of_lt (by omega)
  exact ⟨UInt64.lt_iff_toNat_lt.mpr (by omega), hnat⟩

/-- As long as no task survives a reset, the stamps ascend in the order of storing. -/
theorem Lived.aligned (h : a.Lived c events) (hreset : ∀ n, .reset n ∈ events → n = 0)
    (hlen : events.length < UInt64.size) : a.Aligned ∧ a.ticks.toNat ≤ events.length := by
  induction h with
  | spawned hass =>
    obtain ⟨_, _, _, -, hk, rfl⟩ := assemble_cases hass
    obtain ⟨_, -, hk⟩ := ok_of_bind hk
    obtain ⟨_, -, hk⟩ := ok_of_bind hk
    cases hk
    exact ⟨⟨List.Pairwise.nil, by simp⟩, Nat.le_refl 0⟩
  | ticked _ _ ht ih =>
    rw [List.length_cons] at hlen ⊢
    obtain ⟨haligned, hticks⟩ := ih (fun n hn => hreset n (List.mem_cons_of_mem _ hn)) (by omega)
    obtain ⟨hforward, hnat⟩ := lt_succ_of_ticks hticks hlen
    have hticked := ticked_of_tick ht
    obtain ⟨hascending, hpast⟩ := haligned.ticked hticked hforward
    refine ⟨⟨hascending, hpast⟩, ?_⟩
    dsimp only
    rw [hticked.ticks, hnat]
    omega
  | @reset c events a _ ih =>
    have hnone : a.consolidator.tasks = [] := List.eq_nil_of_length_eq_zero (hreset _ List.mem_cons_self)
    refine ⟨⟨?_, ?_⟩, Nat.zero_le _⟩
    · show a.consolidator.tasks.Pairwise _
      rw [hnone]
      exact List.Pairwise.nil
    · show ∀ t ∈ a.consolidator.tasks, _
      simp [hnone]
  | rewarded _ hr ih =>
    rw [List.length_cons] at hlen ⊢
    obtain ⟨_, _, rfl⟩ := of_reinforce hr
    obtain ⟨⟨hascending, hpast⟩, hticks⟩ := ih (fun n hn => hreset n (List.mem_cons_of_mem _ hn)) (by omega)
    exact ⟨⟨hascending, hpast⟩, Nat.le_succ_of_le hticks⟩
  | shifted _ _ ih =>
    rw [List.length_cons] at hlen ⊢
    obtain ⟨⟨hascending, hpast⟩, hticks⟩ := ih (fun n hn => hreset n (List.mem_cons_of_mem _ hn)) (by omega)
    exact ⟨⟨hascending, hpast⟩, Nat.le_succ_of_le hticks⟩
  | resumed _ _ _ hv hrestore ih =>
    obtain ⟨-, -, hticks, hk⟩ := resumed_of_restore hv hrestore
    have htasks := Consolidator.tasks_of_restore hk
    obtain ⟨⟨hascending, hpast⟩, hle⟩ := ih hreset hlen
    refine ⟨⟨?_, ?_⟩, ?_⟩
    · rw [htasks]
      exact hascending
    · rw [htasks, hticks]
      exact hpast
    · rw [hticks]
      exact hle

/-- **`PrunePolicy.oldest` gives up the first task of least `createdTick`.** Let `b` be the agent `a` after a tick.
Either `b.consolidator = a.consolidator`, or the tasks of `b` are `kept ++ [new]` with `new.createdTick = b.ticks`. Then
`kept` are all tasks of `a` if these were fewer than `maxTasks`, and otherwise all but one task `t`, whose `createdTick`
is less than that of every task in `before` and at most that of every task in `after`. If no reset in `events` left
tasks behind, and there are fewer than `2 ^ 64` events, `before` is empty, so that the task stored first goes. And if
`new.createdTick` is less than that of every task in `kept`, then `new` is the next to go. -/
theorem Lived.prunes_least_stamp (h : a.Lived c events) (hp : c.consolidation.prunePolicy = .oldest)
    (hmax : 0 < c.consolidation.maxTasks) {s : Senses} {e : Encounter} {dt : Float32}
    (ht : a.tick env p s e dt = .ok (b, q)) :
    b.consolidator = a.consolidator ∨ ∃ kept new, b.consolidator.tasks = kept ++ [new] ∧
      new.createdTick = b.ticks ∧
      ((∀ u ∈ kept, new.createdTick < u.createdTick) → b.consolidator.victim? = some kept.length) ∧
      (a.consolidator.tasks.length < c.consolidation.maxTasks ∧ kept = a.consolidator.tasks ∨
        a.consolidator.tasks.length = c.consolidation.maxTasks ∧ ∃ before t after,
          a.consolidator.tasks = before ++ t :: after ∧ kept = before ++ after ∧
          (∀ u ∈ before, t.createdTick < u.createdTick) ∧ (∀ u ∈ after, t.createdTick ≤ u.createdTick) ∧
          ((∀ n, .reset n ∈ events → n = 0) → events.length < UInt64.size → before = [])) := by
  obtain ⟨count, hfits⟩ := h.fits (by omega)
  have hpolicy : a.consolidator.prunePolicy = .oldest := hfits.prunePolicy.trans hp
  have hroom := hfits.room
  have hticked := ticked_of_tick ht
  obtain heq | ⟨_, _, _, _, _, _, hk⟩ := hticked.consolidator
  · exact .inl heq
  · obtain ⟨kept, new, hnew, hsame, htasks, hkept⟩ := Consolidator.of_consolidate hk
    rw [hfits.maxTasks] at hkept
    refine .inr ⟨kept, new, htasks, hnew.trans hticked.ticks.symm,
      Consolidator.victim_last (hsame.trans hpolicy) htasks, ?_⟩
    obtain ⟨rfl, hlt | hnil⟩ | ⟨hfull, i, hi, rfl⟩ := hkept
    · exact .inl ⟨hlt, rfl⟩
    · exact .inl ⟨by rw [hnil]; exact hmax, rfl⟩
    · obtain ⟨before, t, after, hsplit, rfl, hfront, hbehind⟩ := Consolidator.victim_least hpolicy hi
      refine .inr ⟨by omega, before, t, after, hsplit, ?_, hfront, hbehind, fun hreset hlen => ?_⟩
      · rw [hsplit, List.eraseIdx_append_of_length_le (Nat.le_refl _), Nat.sub_self]
        rfl
      · -- Stamps ascend, so nothing in front of the victim can have a greater one.
        have hascending := (h.aligned hreset hlen).1.ascending
        rw [hsplit, List.pairwise_append] at hascending
        rcases List.eq_nil_or_concat before with rfl | ⟨front, u, rfl⟩
        · rfl
        · have hu : u ∈ front.concat u := by simp
          have hlt := hascending.2.2 u hu t List.mem_cons_self
          exact absurd (hfront u hu) (UInt64.lt_asymm hlt)

end Agent

/-- Three ticks, a reset and another tick leave the tasks of stamps 3 and 1, stored in this order. The next tick has
the stamp 2, and it gives up the task that was stored last. -/
theorem prunes_least_stamp_after_reset : ∃ (w : Society) (a b : Agent) (events : List Agent.Event) (q : StatePools),
    a.Lived .eachTick events ∧ a.consolidator.stamps = [3, 1] ∧
    a.tick (w.surroundings default) w.pools default default 0 = .ok (b, q) ∧ b.consolidator.stamps = [3, 2] ∧
    b.consolidator.tasks.head? = a.consolidator.tasks.head? := by
  obtain ⟨w₀, hw₀, hspawn⟩ : ∃ w, Native .eachTick w ∧
      (w.spawnWith ⟨⟨1, 2⟩, "Vex", .rogue, none⟩ .shared).1 = .ok ⟨1, 2⟩ := ⟨_, .start .scalar rfl, rfl⟩
  have hsteady := hw₀.genuine.steady rfl (by decide) (by decide)
  have hdiligent : Config.eachTick.Diligent := ⟨⟨by decide, by decide⟩, rfl, rfl, rfl⟩
  have tick {w : Society} {ticks : UInt64} {stamps : List UInt64} (h : w.Stamped .eachTick ⟨1, 2⟩ ticks stamps) :=
    h.tick hdiligent default default 0 default
  have hthree := tick (tick (tick (Society.stamped_spawned hw₀ hsteady (by decide) hspawn)))
  obtain ⟨a, states, hawake, hticks, hstamps⟩ := tick hthree.reset
  obtain ⟨b, next, ht, -, -, hstored⟩ := hawake.stores hdiligent default default 0 default
  obtain ⟨events, hlived⟩ := hawake.native.genuine.experienced.holds _ a states hawake.holds
  have hstamps : a.consolidator.stamps = [3, 1] := hstamps.trans (by decide)
  have hstored : b.consolidator.stamps = [3, 2] := by
    rw [hstored, hstamps, hticks]
    decide
  refine ⟨_, a, b, events, _, hlived, hstamps, ht, hstored, ?_⟩
  have hlength : a.consolidator.tasks.length = 2 := by
    rw [← List.length_map Task.createdTick]
    exact congrArg List.length hstamps
  obtain heq | ⟨kept, new, htasks, -, -, ⟨hroom, -⟩ | ⟨-, before, t, after, hsplit, rfl, -, hbehind, -⟩⟩ :=
    Agent.Lived.prunes_least_stamp hlived rfl (by decide) ht
  · rw [heq, hstamps] at hstored
    cases hstored
  · exact absurd hroom (by rw [hlength]; decide)
  · rw [htasks, hsplit]
    cases before with
    | cons u rest => rfl
    | nil =>
      -- The first task has the stamp 3, which is not the least.
      rw [Consolidator.stamps, hsplit, List.nil_append, List.map_cons] at hstamps
      obtain ⟨hfirst, hrest⟩ := List.cons.inj hstamps
      obtain ⟨u, rfl, hu⟩ := List.map_eq_singleton_iff.mp hrest
      have hle := hbehind u List.mem_cons_self
      rw [hfirst, hu] at hle
      exact absurd hle (by decide)

end NpcMind
