import NpcMind.Proofs.Steadiness

/-!
# Guards that halt

A guard that halts does what one that repairs does, until a number is not finite. So an agent whose guard halts
goes through the same ticks as one whose numbers are repaired, up to the tick that stops it, and it is ready
for every one of them.
-/

namespace NpcMind

open StatePools Outcome

namespace Guard

variable {α β : Type} {g : Guard}

/-- The guard halted. -/
def Stops (g : Guard) (out : Outcome α) : Prop := g = .halt ∧ ∃ site, out = .error (.fault (.nonFinite site))

/-- The outcome is as expected, unless the guard halted. -/
def Follows (g : Guard) (out expected : Outcome α) : Prop := out = expected ∨ g.Stops out

theorem Follows.refl (g : Guard) (out : Outcome α) : g.Follows out out := .inl rfl

theorem Follows.bind {x y : Outcome α} {f f' : α → Outcome β} (h : g.Follows x y)
    (hf : ∀ a, g.Follows (f a) (f' a)) : g.Follows (x >>= f) (y >>= f') := by
  rcases h with rfl | ⟨hg, site, rfl⟩
  · cases x with
    | error e => exact .inl rfl
    | ok a => exact hf a
  · exact .inr ⟨hg, site, rfl⟩

theorem check_follows (g : Guard) (site : String) (xs : Vec) :
    g.Follows (g.check site xs) (sanitize.check site xs) := by
  cases g with
  | sanitize => exact .inl rfl
  | halt =>
    unfold check
    split
    · exact .inl rfl
    · exact .inr ⟨rfl, site, rfl⟩

end Guard

open Guard

/-! ### Steps through layers -/

theorem Cell.step_follows (c : Cell) (b : Backend) (g : Guard) (s : CellState) (input : Vec) :
    g.Follows (c.step b g s input) (c.step b .sanitize s input) := by
  unfold Cell.step
  refine (Follows.refl g _).bind fun _ => (check_follows g _ _).bind fun _ => ?_
  exact (check_follows g _ _).bind fun _ => Follows.refl g _

namespace Stack

theorem advance_follows (b : Backend) (g : Guard) (cells : List Cell) (layers : List (SlotPool CellState))
    (handles : List Handle) (input : Vec) :
    advance b g cells layers handles input = advance b .sanitize cells layers handles input ∨
      g.Stops (advance b g cells layers handles input).1 := by
  induction cells generalizing layers handles input with
  | nil => exact .inl rfl
  | cons c cells ih =>
    cases layers with
    | nil => exact .inl rfl
    | cons pool layers =>
    cases handles with
    | nil => exact .inl rfl
    | cons h handles =>
    have hstep : g.Follows (pool.get h >>= (c.step b g · input)) (pool.get h >>= (c.step b .sanitize · input)) :=
      (Follows.refl g _).bind fun s => c.step_follows b g s input
    unfold advance
    rcases hstep with heq | ⟨hg, site, hstop⟩
    · rw [heq]
      cases pool.get h >>= (c.step b .sanitize · input) with
      | error e => exact .inl rfl
      | ok r =>
        obtain ⟨n, state⟩ := r
        dsimp only
        rcases ih layers handles state.hidden with heq | ⟨hg, site, hstop⟩
        · rw [heq]
          exact .inl rfl
        · generalize advance b g cells layers handles state.hidden = rest at hstop ⊢
          obtain ⟨out, layers⟩ := rest
          subst hstop
          exact .inr ⟨hg, site, rfl⟩
    · rw [hstop]
      exact .inr ⟨hg, site, rfl⟩

theorem forward_follows (stack : Stack) (b : Backend) (g : Guard) (p : StatePools) (handles : List Handle)
    (input : Vec) (mode : OutputMode) (size : Nat) :
    stack.forward b g p handles input mode size = stack.forward b .sanitize p handles input mode size ∨
      g.Stops (stack.forward b g p handles input mode size).1 := by
  unfold forward
  dsimp only
  split
  · exact .inl rfl
  · rcases advance_follows b g stack.layers p.layers handles input with heq | ⟨hg, site, hstop⟩
    · rw [heq]
      exact .inl rfl
    · generalize advance b g stack.layers p.layers handles input = r at hstop ⊢
      obtain ⟨out, layers⟩ := r
      subst hstop
      exact .inr ⟨hg, site, rfl⟩

end Stack

/-! ### Ticks -/

/-- The configuration with numbers repaired that are not finite. -/
def Config.repairing (c : Config) : Config := { c with numerics := { c.numerics with guard := .sanitize } }

/-- The surroundings with numbers repaired that are not finite. -/
def Surroundings.repairing (env : Surroundings) : Surroundings :=
  { env with config := env.config.repairing, guard := .sanitize }

namespace Agent

theorem decide_follows (a : Agent) (env : Surroundings) (p : StatePools) (attended : Vec) (percept : Percept)
    (e : Encounter) : env.guard.Follows (a.decide env p attended percept e)
      (a.decide env.repairing p attended percept e) := by
  unfold Agent.decide
  split
  · exact .inl rfl
  · next stack _ =>
    split
    · rcases stack.forward_follows env.backend env.guard p a.handles (a.controllerInput attended)
        env.config.controller.outputMode a.outputSize with heq | ⟨hg, site, hstop⟩
      · rw [heq]
        exact .inl rfl
      · generalize stack.forward env.backend env.guard p a.handles (a.controllerInput attended)
          env.config.controller.outputMode a.outputSize = r at hstop ⊢
        obtain ⟨out, q⟩ := r
        subst hstop
        exact .inr ⟨hg, site, rfl⟩
    · exact .inl rfl

/-- **A tick does what it does where numbers are repaired**, unless the guard halts. -/
theorem tick_follows (a : Agent) (env : Surroundings) (p : StatePools) (s : Senses) (e : Encounter)
    (dt : Float32) : env.guard.Follows (a.tick env p s e dt) (a.tick env.repairing p s e dt) := by
  rw [tick_eq, tick_eq]
  refine (Follows.refl env.guard _).bind fun query => ?_
  refine (Follows.refl env.guard _).bind fun context => ?_
  exact (decide_follows (a.mindful env s e context) env p _ (s.percept e) e).bind fun _ => Follows.refl env.guard _

/-! ### Whatever happens between ticks -/

variable {c : Config} {shared : Stack}

theorem lasting_ready_unless_halted (hc : c.repairing.Steady shared) :
    Lasting c (Society.BoardFits c.repairing) (Ready c.repairing shared) where
  tick {env a p states} s e dt henv _ hboard h hv := by
    have hrepairing : env.repairing.config = c.repairing := congrArg Config.repairing henv
    obtain ⟨b, next, htick, hlen, hready, -⟩ := h.tick hc hrepairing rfl hboard hv s e dt
    rcases a.tick_follows env p s e dt with heq | ⟨-, site, hstop⟩
    · exact retains_tick (heq.trans htick) hlen hready.untold
    · exact ⟨.error (.fault (.nonFinite site)), a, states, by simp only [tickAct, hstop, put_of_sees hv], rfl, h⟩
  reset h := h.renewed
  reinforce h hr := h.reinforce hr
  shift change h := h.shift change

theorem assemble_repairing (p : Profile) (binding : Binding) (controller : Option Stack) (handles : List Handle)
    (b : Budget) (c : Config) :
    assemble p binding controller handles b c.repairing = assemble p binding controller handles b c := by
  simp only [assemble, charge, Config.repairing]

theorem inborn_ready_unless_halted (hc : c.repairing.Steady shared) :
    Inborn c shared (Ready c.repairing shared) where
  spawned h := ready_of_assemble hc ((assemble_repairing ..).trans h)
  resumed h hv hr hlen := h.restore hc hv hr hlen

end Agent

variable {c : Config} {w : Society} {id : Uuid}

theorem Reachable.ready_unless_halted (hw : Reachable c w) (hc : c.repairing.Steady w.controller) :
    Society.Each c (Society.BoardFits c.repairing) (Agent.Ready c.repairing w.controller) w :=
  hw.each (Agent.lasting_ready_unless_halted hc) hc.enduring (Agent.inborn_ready_unless_halted hc)
    fun _ => Society.boardFits_of_config (c := c.repairing)

/-- **A tick of an agent succeeds, unless the guard halts**, and then it changes nothing. -/
theorem Reachable.tick_unless_halted (hw : Reachable c w) (hc : c.repairing.Steady w.controller)
    (hid : w.contains id = true) (s : Senses) (e : Encounter) (dt : Float32) (taskId : Uuid) :
    (∃ d, (w.tick id s e dt taskId).1 = .ok d) ∨
      c.numerics.guard = .halt ∧ ∃ site, w.tick id s e dt taskId = (.error (.fault (.nonFinite site)), w) := by
  have heach := hw.ready_unless_halted hc
  obtain ⟨hconfig, hguard⟩ := hw.surroundings taskId
  obtain ⟨a, states, ha⟩ := hw.owned.holds hid
  have hrepairing : (w.surroundings taskId).repairing.config = c.repairing := congrArg Config.repairing hconfig
  obtain ⟨b, next, htick, hlen, -⟩ := (heach.holds id a states ha).tick hc
    hrepairing rfl heach.board ha.sees s e dt
  rcases a.tick_follows (w.surroundings taskId) w.pools s e dt with heq | ⟨hhalt, site, hstop⟩
  · have hok := heq.trans htick
    exact .inl ⟨b.decision, (ha.tick hok hlen (Agent.tick_keeps ha.sees hok).handles).1⟩
  · exact .inr ⟨hguard.symm.trans hhalt, site, ha.tick_error hstop⟩

end NpcMind
