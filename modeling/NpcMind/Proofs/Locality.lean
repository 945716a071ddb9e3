import NpcMind.Agent.Learning
import NpcMind.Agent.Snapshot
import NpcMind.Proofs.Outcome
import NpcMind.Proofs.StatePools

/-!
# What an agent does is its own affair

Whatever an agent does with the pools, it reads nothing but the states of its own handles and replaces
nothing but them. `Agent.IsLocal` says so of an operation by running it on two pools in which the agent
sees the same states: it has the same result, and puts the same states back. Ticks, resets, rewards,
shifts of a relationship and resuming from a snapshot are all local.
-/

namespace NpcMind

open StatePools Outcome

/-! ### Steps of the controller -/

namespace Stack

/-- States that a step of a layer cannot tell apart. -/
def StepsAlike (R : CellState → CellState → Prop) : Prop :=
  ∀ s s', R s s' → ∀ (c : Cell) (b : Backend) (g : Guard) (input : Vec),
    c.step b g s input = c.step b g s' input

theorem stepsAlike_eq : StepsAlike Eq := by
  rintro s _ rfl c b g input
  rfl

variable {R : CellState → CellState → Prop} {layers layers' : List (SlotPool CellState)}
  {handles handles' : List Handle} {states states' : List CellState} {p p' : StatePools}

/-- Layers in front of a failure make the same step; without a failure all of them do, and what they
carried before is gone. -/
theorem advance_alike (hR : StepsAlike R) (hrefl : ∀ s, R s s) (b : Backend) (g : Guard)
    {cells : List Cell} (hv : Sees layers handles states) (hv' : Sees layers' handles' states')
    (hs : List.Forall₂ R states states') (hn : cells.length = handles.length) (input : Vec) :
    ∃ out next next', advance b g cells layers handles input = (out, putAll layers handles next) ∧
      advance b g cells layers' handles' input = (out, putAll layers' handles' next') ∧
      next.length = states.length ∧ List.Forall₂ R next next' ∧ ((∃ r, out = .ok r) → next = next') := by
  induction hv generalizing layers' handles' states' cells input with
  | nil pools =>
    cases hs
    cases hv'
    obtain rfl := List.length_eq_zero_iff.mp hn
    exact ⟨.ok (0, []), [], [], by simp [advance], by simp [advance], rfl, .nil, fun _ => rfl⟩
  | @cons pool pools h handles s states hg hv ih =>
    cases hs with
    | @cons _ s' _ states' hss hs =>
    cases hv' with
    | @cons pool' pools' h' handles' _ _ hg' hv' =>
    obtain ⟨c, cells, rfl, hn'⟩ := List.length_eq_succ_iff.mp hn
    simp only [advance, SlotPool.get_eq_ok.mpr hg, SlotPool.get_eq_ok.mpr hg', bind, Except.bind,
      hR s s' hss c b g input]
    cases hstep : c.step b g s' input with
    | error e =>
      refine ⟨.error e, s :: states, s' :: states', ?_, ?_, rfl, .cons hss hs, ?_⟩
      · rw [putAll_of_sees (.cons hg hv)]
      · rw [putAll_of_sees (.cons hg' hv')]
      · rintro ⟨r, hr⟩
        cases hr
    | ok r =>
      obtain ⟨repairs, t⟩ := r
      obtain ⟨out, next, next', ha, ha', hlen, hnext, hsame⟩ :=
        ih hv' hs hn' t.hidden
      simp only [ha, ha']
      cases out with
      | error e =>
        refine ⟨.error e, t :: next, t :: next', rfl, rfl, by simp [hlen], .cons (hrefl t) hnext, ?_⟩
        rintro ⟨r, hr⟩
        cases hr
      | ok r =>
        obtain ⟨more, outs⟩ := r
        exact ⟨.ok (repairs + more, t.hidden :: outs), t :: next, t :: next', rfl, rfl, by simp [hlen],
          .cons (hrefl t) hnext, fun _ => by rw [hsame ⟨_, rfl⟩]⟩

theorem forward_alike (hR : StepsAlike R) (hrefl : ∀ s, R s s) (stack : Stack) (b : Backend) (g : Guard)
    (hv : Sees p.layers handles states) (hv' : Sees p'.layers handles' states')
    (hs : List.Forall₂ R states states') (input : Vec) (mode : OutputMode) (size : Nat) :
    ∃ out next next', stack.forward b g p handles input mode size = (out, p.put handles next) ∧
      stack.forward b g p' handles' input mode size = (out, p'.put handles' next') ∧
      next.length = states.length ∧ List.Forall₂ R next next' ∧ ((∃ r, out = .ok r) → next = next') := by
  have hlen : handles'.length = handles.length := by rw [← hv.length_eq, ← hv'.length_eq, hs.length_eq]
  have hsizes : ∀ e, ∃ out next next', ((.error e : Outcome (Nat × Vec)), p) = (out, p.put handles next) ∧
      (.error e, p') = (out, p'.put handles' next') ∧ next.length = states.length ∧
      List.Forall₂ R next next' ∧ ((∃ r, out = .ok r) → next = next') := by
    intro e
    refine ⟨.error e, states, states', by rw [put_of_sees hv], by rw [put_of_sees hv'], rfl, hs, ?_⟩
    rintro ⟨r, hr⟩
    cases hr
  unfold forward
  rw [hlen]
  cases hl : expectSize "controller layers" stack.layers.length handles.length with
  | error e => exact hsizes e
  | ok u =>
    cases ho : expectSize "controller output" (stack.outputSize mode) size with
    | error e => exact hsizes e
    | ok u =>
      obtain ⟨out, next, next', ha, ha', hnext⟩ :=
        advance_alike hR hrefl b g hv hv' hs (eq_of_expectSize hl) input
      simp only [bind, Except.bind, ha, ha']
      cases out with
      | error e =>
        refine ⟨.error e, next, next', rfl, rfl, hnext.1, hnext.2.1, ?_⟩
        rintro ⟨r, hr⟩
        cases hr
      | ok r =>
        exact ⟨.ok (r.1, readOut mode r.2), next, next', rfl, rfl, hnext.1, hnext.2.1,
          fun _ => hnext.2.2 ⟨_, rfl⟩⟩

/-- The gradient is that of the last layer's state. -/
theorem finalGradient_congr (stack : Stack) (hv : Sees p.layers handles states)
    (hv' : Sees p'.layers handles' states) (dHidden : Vec) :
    stack.finalGradient p handles dHidden = stack.finalGradient p' handles' dHidden := by
  have hlen : handles'.length = handles.length := by rw [← hv.length_eq, ← hv'.length_eq]
  unfold finalGradient
  rw [hlen]
  cases hl : expectSize "controller layers" stack.layers.length handles.length with
  | error e => rfl
  | ok u =>
    have hn : stack.layers.length = handles.length := eq_of_expectSize hl
    simp only [bind, Except.bind]
    cases hlast : handles.getLast? with
    | none =>
      have hnil : handles = [] := List.getLast?_eq_none_iff.mp hlast
      have hnil' : handles' = [] := List.length_eq_zero_iff.mp (by rw [hlen, hnil]; rfl)
      rw [hnil']
      cases stack.layers.getLast? <;> rfl
    | some h =>
      cases hlast' : handles'.getLast? with
      | none =>
        rw [List.getLast?_eq_none_iff.mp hlast'] at hlen
        rw [List.length_eq_zero_iff.mp hlen.symm] at hlast
        cases hlast
      | some h' =>
        obtain ⟨s, hs, hget⟩ := get_last hv hlast
        obtain ⟨s', hs', hget'⟩ := get_last hv' hlast'
        rw [hs] at hs'
        cases hs'
        rw [hlen] at hget'
        cases stack.layers.getLast? with
        | none => rfl
        | some c => simp only [hn, hget, hget']

end Stack

namespace Agent

variable {a : Agent} {p p' : StatePools} {states : List CellState}

/-- What an agent never changes on its own account. -/
structure Keeps (a b : Agent) : Prop where
  profile : b.profile = a.profile
  handles : b.handles = a.handles
  attached : (b.binding = .detached) = (a.binding = .detached)
  controller : b.controller.isSome = a.controller.isSome

/-- The agent changes as it does, and puts some states back, whatever else is in the pools. -/
def IsLocal {β : Type} (act : Agent → StatePools → Outcome β × Agent × StatePools) : Prop :=
  ∀ (a : Agent) (p p' : StatePools) (states : List CellState),
    Sees p.layers a.handles states → Sees p'.layers a.handles states →
    ∃ out b next, Keeps a b ∧ next.length = states.length ∧
      act a p = (out, b, p.put a.handles next) ∧ act a p' = (out, b, p'.put a.handles next)

/-! ### Deciding and remembering -/

/-- Two runs that decide alike, each with the same states put into its pools. -/
def SamePut (a : Agent) (p p' : StatePools) (n : Nat) (r r' : Agent × StatePools) : Prop :=
  r.1 = r'.1 ∧ Keeps a r.1 ∧ ∃ next : List CellState, next.length = n ∧
    r.2 = p.put a.handles next ∧ r'.2 = p'.put a.handles next

theorem choose_keeps {b : Agent} {c : Config} {readout : Vec} {company : Bool}
    (h : a.choose c readout company = .ok b) : Keeps a b := by
  unfold choose at h
  obtain ⟨probabilities, -, h⟩ := ok_of_bind h
  obtain ⟨signals, -, h⟩ := ok_of_bind h
  cases h
  exact ⟨rfl, rfl, rfl, rfl⟩

theorem decide_local (env : Surroundings) (hv : Sees p.layers a.handles states)
    (hv' : Sees p'.layers a.handles states) (attended : Vec) (percept : Percept) (e : Encounter) :
    Agree (SamePut a p p' states.length) (a.decide env p attended percept e)
      (a.decide env p' attended percept e) := by
  unfold decide
  cases a.controller with
  | none =>
    dsimp only
    refine .ok ?_
    exact ⟨rfl, ⟨rfl, rfl, rfl, rfl⟩, states, rfl, (put_of_sees hv).symm, (put_of_sees hv').symm⟩
  | some stack =>
    simp only [isFinite_eq hv, isFinite_eq hv']
    split
    · obtain ⟨out, next, next', hf, hf', hlen, hnext, -⟩ :=
        Stack.forward_alike Stack.stepsAlike_eq (fun _ => rfl) stack env.backend env.guard hv hv'
          (List.forall₂_eq_eq_eq ▸ rfl) (a.controllerInput attended)
          env.config.controller.outputMode a.outputSize
      obtain rfl : next = next' := by simpa [List.forall₂_eq_eq_eq] using hnext
      simp only [hf, hf']
      have hreflex : SamePut a p p' states.length (a.actByReflex percept e, p.put a.handles next)
          (a.actByReflex percept e, p'.put a.handles next) :=
        ⟨rfl, ⟨rfl, rfl, rfl, rfl⟩, next, hlen, rfl, rfl⟩
      rcases out with err | ⟨repairs, out⟩
      · cases err with
        | fault cause => exact .error _
        | _ => exact .ok hreflex
      · refine (agree_eq (a.choose env.config _ _)).bind fun b b' hb _ hbb => ?_
        cases hbb
        exact .ok ⟨rfl, choose_keeps hb, next, hlen, rfl, rfl⟩
    · simp only [reset_eq hv, reset_eq hv']
      exact .ok ⟨rfl, ⟨rfl, rfl, rfl, rfl⟩, states.map CellState.reset, by simp, rfl, rfl⟩

theorem Keeps.refl (a : Agent) : Keeps a a := ⟨rfl, rfl, rfl, rfl⟩

theorem Keeps.trans {a b c : Agent} (hab : Keeps a b) (hbc : Keeps b c) : Keeps a c :=
  ⟨hbc.profile.trans hab.profile, hbc.handles.trans hab.handles, hbc.attached.trans hab.attached,
    hbc.controller.trans hab.controller⟩

theorem policyGradient_congr {a a' : Agent} (hc : a.controller = a'.controller)
    (hp : a.probabilities = a'.probabilities) (hd : a.decision.action = a'.decision.action)
    (hv : Sees p.layers a.handles states) (hv' : Sees p'.layers a'.handles states) (logitScale : Float32) :
    a.policyGradient p logitScale = a'.policyGradient p' logitScale := by
  unfold policyGradient
  rw [hc]
  cases a'.controller with
  | none => rfl
  | some stack =>
    simp only [hp, hd]
    exact stack.finalGradient_congr hv hv' _

theorem sampleFisher_congr {logitScale : Float32}
    (hg : a.policyGradient p logitScale = a.policyGradient p' logitScale) :
    a.sampleFisher p logitScale = a.sampleFisher p' logitScale := by
  unfold sampleFisher
  rw [hg]

theorem sampleFisher_keeps (logitScale : Float32) : Keeps a (a.sampleFisher p logitScale) := by
  unfold sampleFisher
  split
  · exact ⟨rfl, rfl, rfl, rfl⟩
  · exact .refl a

/-- The agent with an experience in its memory, counted and to be told. -/
def note (a : Agent) (memory : Memory) (experience : Vec) (importance : Float32) : Agent :=
  { a with
    memory
    gossip := some (experience, importance)
    writesSinceConsolidation := a.writesSinceConsolidation + 1
    importanceSum := a.importanceSum + importance
    decision := { a.decision with memoryWritten := true } }

/-- The agent after consolidating, if it is time to. -/
def consolidateInTime (a : Agent) (c : Config.Consolidation) (taskId : Uuid) : Agent :=
  if c.interval > 0 && a.writesSinceConsolidation ≥ c.interval then a.consolidate c taskId else a

theorem learn_eq (c : Config) (taskId : Uuid) (memory : Memory) (experience : Vec) (importance : Float32) :
    a.learn p c taskId memory experience importance =
      ((a.note memory experience importance).sampleFisher p
        c.controller.logitScale).consolidateInTime c.consolidation taskId := rfl

theorem learn_congr {c : Config}
    (hg : a.policyGradient p c.controller.logitScale = a.policyGradient p' c.controller.logitScale)
    (taskId : Uuid) (memory : Memory) (experience : Vec) (importance : Float32) :
    a.learn p c taskId memory experience importance = a.learn p' c taskId memory experience importance := by
  rw [learn_eq, learn_eq, sampleFisher_congr]
  exact hg

theorem learn_keeps (c : Config) (taskId : Uuid) (memory : Memory) (experience : Vec) (importance : Float32) :
    Keeps a (a.learn p c taskId memory experience importance) := by
  have hnote : Keeps a (a.note memory experience importance) := ⟨rfl, rfl, rfl, rfl⟩
  rw [learn_eq, consolidateInTime]
  split
  · exact (hnote.trans (sampleFisher_keeps _)).trans ⟨rfl, rfl, rfl, rfl⟩
  · exact hnote.trans (sampleFisher_keeps _)

theorem remember_congr {c : Config}
    (hg : a.policyGradient p c.controller.logitScale = a.policyGradient p' c.controller.logitScale)
    (taskId : Uuid) (query : Vec) : a.remember p c taskId query = a.remember p' c taskId query := by
  simp only [remember, learn_congr hg]

/-- Whoever acted by reflex does not remember it, and nor does anyone whose memory has no place for it. -/
theorem remember_cases {b : Agent} {c : Config} {taskId : Uuid} {query : Vec}
    (h : a.remember p c taskId query = .ok b) :
    b = a.forgo ∨ a.decision.degraded = false ∧ ∃ experience strength stored memory,
      a.memory.write experience strength = .ok (some stored, memory) ∧
      b = a.learn p c taskId memory experience a.decision.memoryWriteSignal := by
  unfold remember at h
  dsimp only at h
  split at h
  · cases h
    exact .inl rfl
  · next hon =>
    obtain ⟨experience, -, h⟩ := ok_of_bind h
    obtain ⟨written, hwritten, h⟩ := ok_of_bind h
    split at h
    · next stored memory =>
      cases h
      refine .inr ⟨?_, experience, _, stored, memory, of_tolerate hwritten, rfl⟩
      rw [Bool.or_eq_true, not_or] at hon
      exact Bool.eq_false_iff.mpr hon.1
    · cases h
      exact .inl rfl

theorem remember_keeps {b : Agent} {c : Config} {taskId : Uuid} {query : Vec}
    (h : a.remember p c taskId query = .ok b) : Keeps a b := by
  obtain rfl | ⟨-, experience, strength, stored, memory, -, rfl⟩ := remember_cases h
  · exact ⟨rfl, rfl, rfl, rfl⟩
  · exact learn_keeps _ _ _ _ _

/-! ### Local operations -/

theorem feel_keeps (c : Config.Temper) (s : Senses) (e : Encounter) (dt : Float32) :
    Keeps a (a.feel c s e dt) := by
  unfold feel
  exact ⟨rfl, rfl, rfl, rfl⟩

theorem express_keeps (e : Encounter) : Keeps a (a.express e) := by
  unfold express
  exact ⟨rfl, rfl, rfl, rfl⟩

theorem attend_keeps (c : Config.Temper) (s : Senses) (e : Encounter) :
    Keeps a (a.attend c s e).2 := by
  unfold attend
  exact ⟨rfl, rfl, rfl, rfl⟩

theorem tick_local (env : Surroundings) (hv : Sees p.layers a.handles states)
    (hv' : Sees p'.layers a.handles states) (s : Senses) (e : Encounter) (dt : Float32) :
    Agree (SamePut a p p' states.length) (a.tick env p s e dt) (a.tick env p' s e dt) := by
  have hattend : Keeps a (a.attend env.config.temper s e).2 := attend_keeps _ _ _
  unfold tick
  dsimp only
  generalize a.attend env.config.temper s e = r at hattend
  obtain ⟨attended, b⟩ := r
  refine (agree_eq (b.query attended)).bind fun query _ _ _ hq => ?_
  cases hq
  refine (agree_eq (b.recollect env query)).bind fun longTermContext _ _ _ hcontext => ?_
  cases hcontext
  have hrecall : Keeps b { b with longTermContext } := ⟨rfl, rfl, rfl, rfl⟩
  generalize ({ b with longTermContext } : Agent) = c at hrecall
  have hc : c.handles = a.handles := (hattend.trans hrecall).handles
  refine (decide_local env (hc ▸ hv) (hc ▸ hv') attended _ e).bind ?_
  rintro ⟨d, q⟩ ⟨d', q'⟩ - - ⟨hd, hkeep, next, hlen, hq, hq'⟩
  dsimp only at hd hkeep hq hq'
  subst hd hq hq'
  have hfelt : Keeps a (d.feel env.config.temper s e dt) :=
    ((hattend.trans hrecall).trans hkeep).trans (feel_keeps _ _ _ _)
  generalize d.feel env.config.temper s e dt = f at hfelt
  have hsees (r : StatePools) (hr : Sees r.layers a.handles states) :
      Sees (r.put c.handles next).layers f.handles next := by
    rw [hfelt.handles, hc]
    exact sees_putAll hr hlen
  dsimp only
  rw [remember_congr (policyGradient_congr rfl rfl rfl (hsees p hv) (hsees p' hv') _)]
  refine (agree_eq _).bind fun g _ hg _ heq => ?_
  cases heq
  exact .ok ⟨rfl, (hfelt.trans (remember_keeps hg)).trans (express_keeps e), next, hlen, by rw [hc],
    by rw [hc]⟩

theorem tick_keeps {b : Agent} {q : StatePools} {env : Surroundings} (hv : Sees p.layers a.handles states)
    {s : Senses} {e : Encounter} {dt : Float32} (ht : a.tick env p s e dt = .ok (b, q)) : Keeps a b := by
  have hsame := tick_local env hv hv s e dt
  rw [ht] at hsame
  cases hsame with
  | ok h => exact h.2.1

/-- A tick, after which there is nothing left to tell. -/
def tickAct (env : Surroundings) (s : Senses) (e : Encounter) (dt : Float32) (a : Agent)
    (p : StatePools) : Outcome Decision × Agent × StatePools :=
  match a.tick env p s e dt with
  | .error err => (.error err, a, p)
  | .ok (b, q) => (.ok b.decision, { b with gossip := none }, q)

/-- A reset. -/
def resetAct (a : Agent) (p : StatePools) : Outcome Unit × Agent × StatePools :=
  match a.reset p with
  | (.error e, p) => (.error e, a, p)
  | (.ok b, p) => (.ok (), b, p)

/-- A reward. -/
def reinforceAct (c : Config) (reward : Float32) (a : Agent) (p : StatePools) :
    Outcome (PenaltyReport Float32) × Agent × StatePools :=
  match a.reinforce p c reward with
  | .error e => (.error e, a, p)
  | .ok (report, b) => (.ok report, b, p)

/-- A shift of the relationship to the player. -/
def shiftAct (change : Float32) (a : Agent) (p : StatePools) : Outcome Float32 × Agent × StatePools :=
  (.ok (a.shiftRelationship change).affect.level, a.shiftRelationship change, p)

theorem isLocal_tickAct (env : Surroundings) (s : Senses) (e : Encounter) (dt : Float32) :
    IsLocal (tickAct env s e dt) := by
  intro a p p' states hv hv'
  unfold tickAct
  have h := tick_local env hv hv' s e dt
  generalize a.tick env p s e dt = r at h
  generalize a.tick env p' s e dt = r' at h
  cases h with
  | error err =>
    exact ⟨.error err, a, states, .refl a, rfl, by rw [put_of_sees hv], by rw [put_of_sees hv']⟩
  | @ok r r' h =>
    obtain ⟨b, q⟩ := r
    obtain ⟨b', q'⟩ := r'
    obtain ⟨hb, hkeep, next, hlen, hq, hq'⟩ := h
    dsimp only at hb hkeep hq hq'
    subst hb hq hq'
    exact ⟨.ok b.decision, { b with gossip := none }, next,
      ⟨hkeep.profile, hkeep.handles, hkeep.attached, hkeep.controller⟩, hlen, rfl, rfl⟩

theorem isLocal_resetAct : IsLocal resetAct := by
  intro a p p' states hv hv'
  simp only [resetAct, reset, reset_eq hv, reset_eq hv']
  refine ⟨.ok (), _, states.map CellState.reset, ?_, by simp, rfl, rfl⟩
  exact ⟨rfl, rfl, rfl, rfl⟩

theorem isLocal_shiftAct (change : Float32) : IsLocal (shiftAct change) := by
  intro a p p' states hv hv'
  refine ⟨_, _, states, ?_, rfl, by rw [put_of_sees hv, shiftAct], by rw [put_of_sees hv', shiftAct]⟩
  exact ⟨rfl, rfl, rfl, rfl⟩

theorem applyUpdates_keeps {stack : Stack} (hc : a.controller = some stack)
    (updates : List (Nat × Float32)) : Keeps a (a.applyUpdates stack updates) := by
  unfold applyUpdates
  split
  · exact .refl a
  · refine ⟨rfl, rfl, ?_, by simp [hc]⟩
    dsimp only
    split
    · next hb => simp [hb]
    · rfl

theorem reinforce_congr (hv : Sees p.layers a.handles states) (hv' : Sees p'.layers a.handles states)
    (c : Config) (reward : Float32) : a.reinforce p c reward = a.reinforce p' c reward := by
  have hg := policyGradient_congr rfl rfl rfl hv hv' c.controller.logitScale
  simp only [reinforce, rewardUpdates, hg]

theorem reinforce_keeps {b : Agent} {c : Config} {reward : Float32} {report : PenaltyReport Float32}
    (h : a.reinforce p c reward = .ok (report, b)) : Keeps a b := by
  unfold reinforce at h
  split at h
  · cases h
  · next stack hc =>
    obtain ⟨rewards, -, h⟩ := ok_of_bind h
    obtain ⟨pulls, -, h⟩ := ok_of_bind h
    obtain ⟨report, -, h⟩ := ok_of_bind h
    cases h
    exact applyUpdates_keeps hc _

theorem isLocal_reinforceAct (c : Config) (reward : Float32) : IsLocal (reinforceAct c reward) := by
  intro a p p' states hv hv'
  unfold reinforceAct
  rw [reinforce_congr hv hv']
  cases h : a.reinforce p' c reward with
  | error e =>
    exact ⟨.error e, a, states, .refl a, rfl, by rw [put_of_sees hv], by rw [put_of_sees hv']⟩
  | ok r =>
    exact ⟨.ok r.1, r.2, states, reinforce_keeps h, rfl, by rw [put_of_sees hv], by rw [put_of_sees hv']⟩

/-! ### Resuming from a snapshot -/

theorem takeParameters_keeps {b : Agent} {s : Snapshot} (h : a.takeParameters s = .ok b) : Keeps a b := by
  unfold takeParameters at h
  split at h
  · cases h
    exact .refl a
  · split at h
    · cases h
    · next hc =>
      obtain ⟨stack, -, h⟩ := ok_of_bind h
      cases h
      exact ⟨rfl, rfl, rfl, by simp [hc]⟩

theorem keepUnless_keeps {α : Type} {part : Outcome α} {put : α → Agent} (h : ∀ x, Keeps a (put x)) :
    Keeps a (a.keepUnless part put).2 := by
  unfold keepUnless
  split
  · exact h _
  · exact .refl a

theorem andThen_keeps {first : Outcome Unit × Agent} {next : Agent → Outcome Unit × Agent}
    (hfirst : Keeps a first.2) (hnext : ∀ b, Keeps b (next b).2) : Keeps a (andThen first next).2 := by
  unfold andThen
  split
  · exact hfirst.trans (hnext _)
  · exact hfirst

theorem takeRecords_keeps (s : Snapshot) : Keeps a (a.takeRecords s).2 := by
  unfold takeRecords
  refine andThen_keeps (andThen_keeps (andThen_keeps (keepUnless_keeps fun _ => ?_) fun b => ?_)
    fun b => ?_) fun b => ?_
  · exact ⟨rfl, rfl, rfl, rfl⟩
  · exact keepUnless_keeps fun _ => ⟨rfl, rfl, rfl, rfl⟩
  · exact keepUnless_keeps fun _ => ⟨rfl, rfl, rfl, rfl⟩
  · exact ⟨rfl, rfl, rfl, rfl⟩

theorem isLocal_restore (s : Snapshot) : IsLocal fun a p => a.restore s p := by
  intro a p p' states hv hv'
  simp only [restore]
  cases h : (a.checkLengths s >>= fun _ => a.takeParameters s) with
  | error e =>
    exact ⟨.error e, a, states, .refl a, rfl, by rw [put_of_sees hv], by rw [put_of_sees hv']⟩
  | ok b =>
    obtain ⟨-, -, htake⟩ := ok_of_bind h
    have hkeep := takeParameters_keeps htake
    simp only [hkeep.handles]
    by_cases hl : a.handles.length = s.states.length
    · simp only [restore_eq hv _ hl, restore_eq hv' _ hl]
      have hlen := length_changeStates CellState.restore states s.states
      generalize changeStates CellState.restore states s.states = r at hlen
      obtain ⟨out, next⟩ := r
      cases out with
      | error e => exact ⟨.error e, b, next, hkeep, hlen, rfl, rfl⟩
      | ok u => exact ⟨_, _, next, hkeep.trans (takeRecords_keeps s), hlen, rfl, rfl⟩
    · simp only [StatePools.restore, expectSize, hl, if_false]
      exact ⟨_, b, states, hkeep, rfl, by rw [put_of_sees hv], by rw [put_of_sees hv']⟩

end Agent

end NpcMind
