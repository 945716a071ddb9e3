import NpcMind.Proofs.Chronicles

/-!
# Acting by reflex

Without a controller, or when the controller fails, an agent acts by reflex. Such a tick teaches it nothing: what
it remembers, samples, consolidated and decides with stays as it is, it draws no number and has nothing to tell.
So the numbers that an agent drew count the ticks on which it decided on its own.
-/

namespace NpcMind

open StatePools Outcome

namespace Agent

variable {c : Config} {near : Config → Config → Prop} {ds : List Decision} {a b d : Agent} {env : Surroundings}
  {p q : StatePools} {s : Senses} {e : Encounter} {dt : Float32}

/-- What an agent learns by ticking and by being rewarded. -/
structure Learned where
  memory : Memory
  accumulator : Accumulator
  writesSinceConsolidation : UInt32
  importanceSum : Float32
  consolidator : Consolidator
  binding : Binding
  controller : Option Stack
  sampler : Sampler

/-- What the agent has learned. -/
def learned (a : Agent) : Learned where
  memory := a.memory
  accumulator := a.accumulator
  writesSinceConsolidation := a.writesSinceConsolidation
  importanceSum := a.importanceSum
  consolidator := a.consolidator
  binding := a.binding
  controller := a.controller
  sampler := a.sampler

/-! ### One tick -/

theorem Poised.learned (h : Poised a d) (hd : d.decision.degraded = true) : d.learned = a.learned := by
  have hsampler := h.sampler
  rw [hd, if_pos rfl] at hsampler
  unfold Agent.learned
  rw [h.memory, h.accumulator, h.writesSinceConsolidation, h.importanceSum, h.consolidator, h.binding, h.controller,
    hsampler]

/-- A tick that an agent learned from was not decided by reflex. -/
theorem degraded_learn (d : Agent) (p : StatePools) (c : Config) (taskId : Uuid) (memory : Memory) (experience : Vec)
    (importance : Float32) (e : Encounter) :
    ((d.learn p c taskId memory experience importance).express e).decision.degraded = d.decision.degraded := by
  obtain ⟨_, _, _, _, hlearn⟩ := d.learn_eq_note p c taskId memory experience importance
  rw [degraded_express, hlearn]
  rfl

theorem tick_by_reflex (h : a.tick env p s e dt = .ok (b, q)) (hd : b.decision.degraded = true) :
    b.gossip = none ∧ b.decision.memoryWritten = false ∧ b.learned = a.learned := by
  obtain ⟨d, hpoised, rfl | ⟨hon, _, _, _, _, -, rfl⟩⟩ := tick_cases h
  · obtain ⟨decision, hexpress, hdegraded, hwritten⟩ := d.forgo.express_decision e
    rw [hexpress] at hd ⊢
    exact ⟨rfl, hwritten, hpoised.learned (hdegraded.symm.trans hd)⟩
  · rw [degraded_learn, hon] at hd
    cases hd

theorem sampler_of_tick (h : a.tick env p s e dt = .ok (b, q)) :
    b.sampler = if b.decision.degraded then a.sampler else a.sampler.next.2 := by
  obtain ⟨d, hpoised, rfl | ⟨-, experience, _, _, memory, -, rfl⟩⟩ := tick_cases h
  · rw [degraded_express]
    exact hpoised.sampler
  · obtain ⟨_, _, _, _, hlearn⟩ :=
      d.learn_eq_note q env.config env.taskId memory experience d.decision.memoryWriteSignal
    rw [degraded_learn, ← hpoised.sampler]
    rw [hlearn]
    rfl

/-! ### Many ticks -/

/-- One number for each tick that was not decided by reflex. -/
theorem Chronicled.counter (h : a.Chronicled near c ds) :
    a.sampler.counter = UInt64.ofNat (ds.countP fun d => !d.degraded) := by
  induction h with
  | spawned _ hass =>
    obtain ⟨_, _, _, -, -, rfl⟩ := assemble_cases hass
    rfl
  | @ticked _ ds a b _ _ _ _ _ _ _ _ _ _ _ _ _ ht ih =>
    have hsampler : b.sampler.counter = _ := congrArg Sampler.counter (sampler_of_tick ht)
    dsimp only
    rw [hsampler, List.countP_cons]
    cases b.decision.degraded with
    | true => exact ih
    | false =>
      show a.sampler.counter + 1 = UInt64.ofNat (ds.countP _ + 1)
      rw [UInt64.ofNat_add, ih]
      rfl
  | reset => rfl
  | rewarded _ hr ih =>
    obtain ⟨_, _, rfl⟩ := of_reinforce hr
    exact ih
  | shifted _ _ ih => exact ih
  | resumed _ _ _ _ _ hv hr ih =>
    rw [(takesAfter_of_restore hv hr).sampler]
    exact ih

end Agent

variable {c : Config} {w : Society} {id : Uuid} {a : Agent}

/-- Who has nothing to tell leaves the board alone. -/
theorem Society.tell_nothing (board : Option Board) (h : a.gossip = none) : (tell board a).1 = board := by
  unfold tell
  rw [h]
  cases board <;> rfl

/-- **A degraded tick leaves `Agent.learned` as it was.** In every reachable society `w`, if a tick of `a` answers a
decision `d` with `d.degraded`, then `d.memoryWritten` is false, the board is as before, and the agent `b` afterwards
has `b.gossip = none` and `b.learned = a.learned`, that is, the same memory, accumulator, counters, consolidator,
binding, controller and sampler. If `w` is genuine, `a.sampler.counter` is the number of decisions since the agent was
spawned or last reset that are not degraded, as a word of 64 bits, saving and loading included (`Agent.Chronicled`).
-/
theorem Reachable.tick_degraded_keeps_learned (hw : Reachable c w) (ha : w.agent id = .ok a) :
    (∀ s e dt taskId d w', w.tick id s e dt taskId = (.ok d, w') → d.degraded = true →
      d.memoryWritten = false ∧ w'.board = w.board ∧
      ∃ b q, a.tick (w.surroundings taskId) w.pools s e dt = .ok (b, q) ∧ b.gossip = none ∧ b.learned = a.learned ∧
        w'.agent id = .ok b) ∧
    (Genuine c w → ∃ ds, a.Chronicled (fun _ _ => True) c ds ∧
      a.sampler.counter = UInt64.ofNat (ds.countP fun d => !d.degraded)) := by
  obtain ⟨states, hheld⟩ := hw.owned.holds_agent ha
  constructor
  · intro s e dt taskId d w' htick hd
    obtain ⟨b, next, ht, rfl, hheld', hboard⟩ := hheld.of_tick htick
    obtain ⟨hgossip, hwritten, hlearned⟩ := Agent.tick_by_reflex ht hd
    refine ⟨hwritten, hboard.trans (Society.tell_nothing w.board hgossip), b, _, ht, hgossip, hlearned, ?_⟩
    rw [hheld'.agent, ← hgossip]
  · intro hgenuine
    obtain ⟨ds, hds⟩ := hgenuine.chronicled.holds id a states hheld
    exact ⟨ds, hds, hds.counter⟩

/-- A detached agent acts by reflex on its first tick. -/
theorem tick_degraded_keeps_learned_of_detached : ∃ w a, Genuine {} w ∧ w.agent ⟨1, 2⟩ = .ok a ∧
    (∀ s e dt taskId, ∃ d w' b, w.tick ⟨1, 2⟩ s e dt taskId = (.ok d, w') ∧ d.degraded = true ∧
      d.memoryWritten = false ∧ w'.board = w.board ∧ w'.agent ⟨1, 2⟩ = .ok b ∧ b.gossip = none ∧
      b.learned = a.learned) ∧
    ∃ ds, a.Chronicled (fun _ _ => True) {} ds ∧
      a.sampler.counter = UInt64.ofNat (ds.countP fun d => !d.degraded) := by
  obtain ⟨w, hw, a, ha, hdetached⟩ : ∃ w, Genuine {} w ∧ ∃ a, w.agent ⟨1, 2⟩ = .ok a ∧ a.binding = .detached :=
    ⟨_, .next (.spawnWith ⟨⟨1, 2⟩, "Vex", .rogue, none⟩ .detached) rfl (.start .scalar rfl), _, rfl, rfl⟩
  obtain ⟨hticks, hcount⟩ := hw.reachable.tick_degraded_keeps_learned ha
  refine ⟨w, a, hw, ha, fun s e dt taskId => ?_, hcount hw⟩
  have hsteady := hw.steady rfl (by decide) (by decide)
  obtain ⟨states, hheld⟩ := hw.sound.owned.holds_agent ha
  obtain ⟨d, hd, hdegraded⟩ := (hw.reachable.ticksSteadily hsteady hheld s e dt taskId).decides
  have hreflex := hdegraded.mpr (.inl hdetached)
  obtain ⟨hwritten, hboard, b, q, -, hgossip, hlearned, hagent⟩ :=
    hticks s e dt taskId d _ (Prod.ext hd rfl) hreflex
  exact ⟨d, _, b, Prod.ext hd rfl, hreflex, hwritten, hboard, hagent, hgossip, hlearned⟩

end NpcMind
