import NpcMind.Proofs.LastLayer
import NpcMind.Proofs.Resume

/-!
# Rewards after resuming

A snapshot holds what an agent carries on to its next step, but not what its latest decision was made of: the
action with its probabilities, and the gates and the intake of the last step. These are what a reward is traced
back through. In an agent that has just been resumed they are zero, and so are all derivatives, unless one of the
products overflows. Such an agent learns nothing from a reward: it comes out of it as the one that was saved would
come out of a reward that is not finite, which counts for nothing.
-/

namespace NpcMind

open StatePools Outcome

/-! ## States without a last step -/

namespace CellState

variable {s t : CellState}

/-- Nothing is known of the last step. -/
structure Blank (s : CellState) : Prop where
  previousCell : ∀ x ∈ s.previousCell, x = 0
  gates : ∀ x ∈ s.gates, x = 0
  intake : ∀ x ∈ s.intake, x = 0

theorem blank_restore {r : StateRecord} (h : s.restore r = .ok t) : t.Blank := by
  obtain ⟨_, -, h⟩ := ok_of_bind h
  obtain ⟨_, -, h⟩ := ok_of_bind h
  cases h
  exact ⟨Vec.eq_zero_of_mem_zeros, Vec.eq_zero_of_mem_zeros, Vec.eq_zero_of_mem_zeros⟩

theorem blank_initial (inputSize hiddenSize : Nat) : (initial inputSize hiddenSize).Blank :=
  ⟨Vec.eq_zero_of_mem_zeros, Vec.eq_zero_of_mem_zeros, Vec.eq_zero_of_mem_zeros⟩

theorem blank_changeStates {states : List CellState} (h : ∀ t ∈ states, t.Blank) (records : List StateRecord) :
    ∀ t ∈ (changeStates CellState.restore states records).2, t.Blank := by
  induction states generalizing records with
  | nil => exact h
  | cons s states ih =>
    cases records with
    | nil => exact h
    | cons r records =>
      have hrest := ih (fun t ht => h t (List.mem_cons_of_mem s ht)) records
      unfold changeStates
      split
      · exact h
      · next t hrestore =>
        intro t' ht'
        rcases List.mem_cons.mp ht' with rfl | ht'
        · exact blank_restore hrestore
        · exact hrest t' ht'

theorem Blank.gate (h : s.Blank) (g : Gate) (k : Nat) : (s.gate g).getD k 0 = 0 := by
  rw [CellState.gate, Array.getD_eq_getD_getElem?, Array.getElem?_extract]
  split
  · rw [← Array.getD_eq_getD_getElem?]
    exact Vec.getD_eq_zero h.gates _
  · rfl

end CellState

/-! ## Derivatives -/

namespace Cell

variable {c : Cell} {s : CellState} {dHidden : Vec} {dh : Float32} {k : Nat}

/-- With the gates at zero, every derivative has a factor of zero. -/
theorem void_gateDerivatives (h : s.Blank) (k : Nat) (dh : Float32) :
    ∀ g ∈ gateDerivatives s k dh, Single.Void g := by
  have hdc : Single.Void (dh * (s.gate .output).getD k 0 *
      (1 - Single.tanh (s.cell.getD k 0) * Single.tanh (s.cell.getD k 0))) := by
    rw [h.gate]
    exact (Single.void_zero.mul_left dh).mul_right _
  have hshown : Single.Void (dh * Single.tanh (s.cell.getD k 0) * (s.gate .output).getD k 0) := by
    rw [h.gate]
    exact Single.void_zero.mul_left _
  intro g hg
  simp only [gateDerivatives, List.mem_cons, List.not_mem_nil, or_false] at hg
  rcases hg with rfl | rfl | rfl | rfl
  · exact ((hdc.mul_right _).mul_right _).mul_right _
  · exact ((hdc.mul_right _).mul_right _).mul_right _
  · exact (hdc.mul_right _).mul_right _
  · exact hshown.mul_right _

/-- What is left of the gradient is no number. -/
theorem isNaN_gradient (h : s.Blank) : ∀ u ∈ c.gradient s dHidden, u.2.isNaN = true := by
  intro u hu
  obtain ⟨k, dh, i, g, -, -, -, hg, hu⟩ := mem_gradient.mp hu
  obtain ⟨hzero, rfl | ⟨col, x, hx, hx0, -⟩⟩ := mem_rowGradient.mp hu
  · refine (void_gateDerivatives h k dh g (List.mem_of_getElem? hg)).eq_zero_or_nan.resolve_left ?_
    rw [hzero]
    exact Bool.false_ne_true
  · rw [h.intake x (Array.mem_of_getElem? hx)] at hx0
    exact absurd hx0 (by decide)

/-- What the derivatives of a unit start from is finite: the derivative by its hidden value, that by its output
gate, and the slope of what it shows. -/
structure Tame (dh shown : Float32) : Prop where
  hidden : dh.isFinite = true
  output : (dh * shown).isFinite = true
  slope : (1 - shown * shown).isFinite = true

/-- Unless a product overflows, the derivatives are zero. -/
theorem gateDerivatives_eq_zero (h : s.Blank) (hf : Tame dh (Single.tanh (s.cell.getD k 0))) :
    ∀ g ∈ gateDerivatives s k dh, (g == 0) = true := by
  have hdc : (dh * 0 * (1 - Single.tanh (s.cell.getD k 0) * Single.tanh (s.cell.getD k 0)) == 0) = true :=
    Single.beq_zero_mul (Single.beq_mul_zero hf.hidden rfl) hf.slope
  have hshown : (dh * Single.tanh (s.cell.getD k 0) * 0 == 0) = true := Single.beq_mul_zero hf.output rfl
  intro g hg
  simp only [gateDerivatives, h.gate, Vec.getD_eq_zero h.previousCell, List.mem_cons, List.not_mem_nil,
    or_false] at hg
  rcases hg with rfl | rfl | rfl | rfl
  · exact Single.beq_zero_mul (Single.beq_zero_mul (Single.beq_zero_mul hdc rfl) rfl) rfl
  · exact Single.beq_zero_mul (Single.beq_zero_mul (Single.beq_zero_mul hdc rfl) rfl) rfl
  · exact Single.beq_zero_mul (Single.beq_zero_mul hdc rfl) rfl
  · exact Single.beq_zero_mul hshown rfl

theorem gradient_eq_nil (h : s.Blank) (hd : ∀ k dh, dHidden[k]? = some dh → (dh == 0) = false →
    Tame dh (Single.tanh (s.cell.getD k 0))) : c.gradient s dHidden = [] := by
  refine List.eq_nil_iff_forall_not_mem.mpr fun u hu => ?_
  obtain ⟨k, dh, i, g, -, hdh, hne, hg, hu⟩ := mem_gradient.mp hu
  have hzero := gateDerivatives_eq_zero h (hd k dh hdh hne) g (List.mem_of_getElem? hg)
  rw [(mem_rowGradient.mp hu).1] at hzero
  cases hzero

end Cell

/-! ## Agents that were resumed -/

namespace Agent

variable {c : Config} {a b a₀ : Agent} {stack : Stack} {p q : StatePools} {states next : List CellState}
  {reward : Float32}

/-- Nothing is known of the agent's latest decision. -/
structure Unaware (b : Agent) : Prop where
  action : b.decision.action = .idle
  degraded : b.decision.degraded = false
  probabilities : b.probabilities = Vec.zeros Action.count

theorem unaware_of_restore {s : Snapshot} (hp : a₀.probabilities = Vec.zeros Action.count)
    (hv : Sees p.layers a₀.handles states) (h : a₀.restore s p = (.ok (), b, q)) : b.Unaware := by
  obtain ⟨a₁, _, -, hparameters, -, hrecords, -⟩ := of_restore hv h
  obtain ⟨_, _, _, -, -, -, rfl⟩ := of_takeRecords hrecords
  rcases takeParameters_cases hparameters with ⟨-, rfl⟩ | ⟨_, _, _, -, -, -, rfl⟩
  · exact ⟨rfl, rfl, hp⟩
  · exact ⟨rfl, rfl, hp⟩

theorem blank_of_restore {s : Snapshot} (hstates : ∀ t ∈ states, t.Blank) (hv : Sees p.layers a₀.handles states)
    (hlen : next.length = states.length) (h : a₀.restore s p = (.ok (), b, p.put a₀.handles next)) :
    ∀ t ∈ next, t.Blank := by
  obtain ⟨_, next', -, -, hnext, -, hput⟩ := of_restore hv h
  have hlen' : next'.length = states.length := by
    rw [← length_changeStates CellState.restore states s.states, hnext]
  obtain rfl : next = next' := by
    have hsees := sees_putAll hv hlen
    have hsees' := sees_putAll hv hlen'
    exact (hput ▸ hsees : Sees (p.put a₀.handles next').layers a₀.handles next).unique hsees'
  have hblank := CellState.blank_changeStates hstates s.states
  rw [hnext] at hblank
  exact hblank

theorem blank_initialStates (binding : Binding) (shared : Stack) : ∀ t ∈ initialStates binding shared, t.Blank := by
  intro t ht
  unfold initialStates at ht
  split at ht
  · cases ht
  · obtain ⟨cell, -, rfl⟩ := List.mem_map.mp ht
    exact CellState.blank_initial _ _

/-- The derivatives by what the last layer gave out, for an agent that does not know its decision. -/
theorem Unaware.policyGradient (h : b.Unaware) {logitScale dh : Float32} {size k : Nat}
    (hk : (Choice.policyGradient b.probabilities b.decision.action logitScale size)[k]? = some dh) :
    dh = 0 ∨ dh = logitScale * ((if k = Action.idle.index then 1 else 0) - 0) := by
  rw [h.probabilities, h.action, Choice.policyGradient, Array.getElem?_map, Array.getElem?_range] at hk
  split at hk
  · rw [Option.map_some] at hk
    obtain rfl := Option.some.inj hk
    split
    · next x hx =>
      rw [Vec.eq_zero_of_mem_zeros x (Array.mem_of_getElem? hx)]
      exact .inr rfl
    · exact .inl rfl
  · cases hk

theorem of_policyGradient {logitScale : Float32} {gradient : List (Nat × Float32)}
    (hv : Sees p.layers a.handles states) (h : a.policyGradient p logitScale = .ok gradient) :
    ∃ (stack : Stack) (cell : Cell) (state : CellState), a.controller = some stack ∧ states.getLast? = some state ∧
      gradient = (cell.gradient state
        (Choice.policyGradient a.probabilities a.decision.action logitScale stack.finalSize)).map
          fun u => (stack.finalOffset + u.1, u.2) := by
  unfold policyGradient at h
  split at h
  · cases h
  · next stack hs =>
    obtain ⟨cell, handle, state, -, hhandle, hget, hgradient⟩ := Stack.of_finalGradient h
    obtain ⟨state', hlast, hget'⟩ := get_last hv hhandle
    obtain rfl := Except.ok.inj (hget.symm.trans hget')
    exact ⟨stack, cell, state, hs, hlast, hgradient⟩

/-- Without a last step, no update for a reward is a number. -/
theorem isNaN_rewardUpdates (hblank : ∀ t ∈ states, t.Blank) (hv : Sees p.layers a.handles states)
    {rewards : List (Nat × Float32)} (h : a.rewardUpdates p c reward = .ok rewards) :
    ∀ u ∈ rewards, u.2.isNaN = true := by
  unfold rewardUpdates at h
  split at h
  · obtain ⟨gradient, hg, h⟩ := ok_of_bind h
    cases h
    obtain ⟨stack, cell, state, -, hlast, rfl⟩ := of_policyGradient hv hg
    intro u hu
    obtain ⟨v, hv, rfl⟩ := List.mem_map.mp hu
    obtain ⟨v', hv', rfl⟩ := List.mem_map.mp hv
    exact Single.isNaN_mul_nan _ (Cell.isNaN_gradient (hblank state (List.mem_of_getLast? hlast)) v' hv')
  · cases h
    intro u hu
    cases hu

/-- Unless a product overflows, there are none. -/
theorem Unaware.rewardUpdates (h : b.Unaware) (hblank : ∀ t ∈ states, t.Blank)
    (hv : Sees p.layers b.handles states) (htame : ∀ t, states.getLast? = some t →
      Cell.Tame (c.controller.logitScale * 1) (Single.tanh (t.cell.getD Action.idle.index 0)))
    {rewards : List (Nat × Float32)} (hr : b.rewardUpdates p c reward = .ok rewards) : rewards = [] := by
  unfold Agent.rewardUpdates at hr
  split at hr
  · obtain ⟨gradient, hg, hr⟩ := ok_of_bind hr
    cases hr
    obtain ⟨stack, cell, state, -, hlast, rfl⟩ := of_policyGradient hv hg
    rw [Cell.gradient_eq_nil (hblank state (List.mem_of_getLast? hlast)) fun k dh hk hne => ?_]
    · rfl
    · obtain rfl | rfl := h.policyGradient hk
      · cases hne
      · split at hne
        · next hidle =>
          subst hidle
          exact htame state hlast
        · -- A unit of another action than that of a new decision is at a derivative of zero.
          have hscale : c.controller.logitScale.isFinite = true := by
            rw [← Bool.not_eq_false]
            intro hinfinite
            have := (htame state hlast).hidden
            rw [Single.isFinite_mul_eq_false hinfinite] at this
            cases this
          have hzero : (c.controller.logitScale * (0 - 0) == 0) = true := Single.beq_mul_zero hscale rfl
          rw [hne] at hzero
          cases hzero
  · cases hr
    rfl

/-- What a reward comes to: the penalty afterwards, and the agent's binding and parameters. -/
def rewarded (a : Agent) (p : StatePools) (c : Config) (reward : Float32) :
    Outcome (PenaltyReport Float32 × Binding × Option Stack) :=
  (a.reinforce p c reward).map fun r => (r.1, r.2.binding, r.2.controller)

theorem applyUpdates_alike (hb : a.binding = b.binding) (hk : a.consolidator = b.consolidator)
    (hc : a.controller = b.controller) (stack : Stack) (updates : List (Nat × Float32)) :
    (a.applyUpdates stack updates).binding = (b.applyUpdates stack updates).binding ∧
      (a.applyUpdates stack updates).controller = (b.applyUpdates stack updates).controller ∧
      (a.applyUpdates stack updates).penalty = (b.applyUpdates stack updates).penalty := by
  unfold applyUpdates penalty
  split
  · exact ⟨hb, hc, by rw [hc, hk]⟩
  · exact ⟨by rw [hb], rfl, by rw [hk]⟩

/-- Agents with the same parameters and tasks fare alike if they are updated alike. -/
theorem rewarded_congr (hb : a.binding = b.binding) (hk : a.consolidator = b.consolidator)
    (hc : a.controller = b.controller) {reward' : Float32}
    (hr : a.rewardUpdates p c reward = b.rewardUpdates q c reward') :
    a.rewarded p c reward = b.rewarded q c reward' := by
  have hpulls (current : Vec) : a.penaltyUpdates c current = b.penaltyUpdates c current := by
    simp only [penaltyUpdates, hk]
  unfold rewarded Agent.reinforce
  rw [hc, hr]
  cases hs : b.controller with
  | none => rfl
  | some stack =>
    simp only [bind, Except.bind, hpulls]
    cases b.rewardUpdates q c reward' with
    | error e => rfl
    | ok rewards =>
      dsimp only
      cases b.penaltyUpdates c stack.flatten with
      | error e => rfl
      | ok pulls =>
        obtain ⟨hbinding, hcontroller, hpenalty⟩ := applyUpdates_alike hb hk hc stack (rewards ++ pulls)
        dsimp only
        rw [hpenalty]
        cases (b.applyUpdates stack (rewards ++ pulls)).penalty with
        | error e => rfl
        | ok report => exact congrArg Except.ok (congrArg (Prod.mk report) (Prod.ext hbinding hcontroller))

theorem rewarded_detached (hs : a.controller = none) (p : StatePools) (c : Config) (reward : Float32) :
    a.rewarded p c reward = .error (.config "detached agents have no parameters to adapt") := by
  rw [rewarded, Agent.reinforce, hs]
  rfl

/-- Before the first tick, after a decision by reflex and for no finite reward there is nothing to learn. -/
theorem rewardUpdates_nothing (h : a.ticks = 0 ∨ a.decision.degraded = true ∨ reward.isFinite = false)
    (p : StatePools) (c : Config) : a.rewardUpdates p c reward = .ok [] := by
  unfold rewardUpdates
  split
  · next hall =>
    simp only [Bool.and_eq_true, Bool.not_eq_true', decide_eq_true_eq] at hall
    obtain ⟨⟨hticks, hdegraded⟩, hfinite⟩ := hall
    obtain h | h | h := h
    · rw [h] at hticks
      exact absurd hticks (by decide)
    · rw [h] at hdegraded
      cases hdegraded
    · rw [h] at hfinite
      cases hfinite
  · rfl

end Agent

namespace Society

variable {c : Config} {w w' : Society} {id : Uuid} {a b : Agent} {states states' : List CellState}
  {reward reward' : Float32}

/-- What comes of a reward: the penalty afterwards, and the agent's binding and parameters. -/
def rewarded (w : Society) (id : Uuid) (reward : Float32) :
    Outcome (PenaltyReport Float32) × Outcome (Binding × Option Stack) :=
  ((w.reinforce id reward).1, ((w.reinforce id reward).2.agent id).map fun a => (a.binding, a.controller))

theorem Holds.rewarded_ok (h : w.Holds id a states) {r : PenaltyReport Float32 × Binding × Option Stack}
    (hr : a.rewarded w.pools w.config reward = .ok r) : w.rewarded id reward = (.ok r.1, .ok r.2) := by
  cases hreinforce : a.reinforce w.pools w.config reward with
  | error e =>
    rw [Agent.rewarded, hreinforce] at hr
    cases hr
  | ok out =>
    rw [Agent.rewarded, hreinforce] at hr
    cases hr
    obtain ⟨hok, hheld⟩ := h.reinforce_ok hreinforce
    rw [Society.rewarded, hok, hheld.agent]
    rfl

theorem Holds.rewarded_error (h : w.Holds id a states) {e : Error}
    (hr : a.rewarded w.pools w.config reward = .error e) :
    w.rewarded id reward = (.error e, .ok (a.binding, a.controller)) := by
  cases hreinforce : a.reinforce w.pools w.config reward with
  | error e' =>
    rw [Agent.rewarded, hreinforce] at hr
    cases hr
    rw [Society.rewarded, h.reinforce_error hreinforce, h.agent]
    rfl
  | ok out =>
    rw [Agent.rewarded, hreinforce] at hr
    cases hr

theorem Holds.rewarded_congr (ha : w.Holds id a states) (hb : w'.Holds id b states') (hw : w.config = w'.config)
    (hbinding : a.binding = b.binding) (hk : a.consolidator = b.consolidator) (hc : a.controller = b.controller)
    (hr : a.rewardUpdates w.pools w.config reward = b.rewardUpdates w'.pools w'.config reward') :
    w.rewarded id reward = w'.rewarded id reward' := by
  have hsame : a.rewarded w.pools w.config reward = b.rewarded w'.pools w'.config reward' := by
    rw [← hw] at hr ⊢
    exact Agent.rewarded_congr hbinding hk hc hr
  cases hout : b.rewarded w'.pools w'.config reward' with
  | error e => rw [ha.rewarded_error (hsame.trans hout), hb.rewarded_error hout, hbinding, hc]
  | ok r => rw [ha.rewarded_ok (hsame.trans hout), hb.rewarded_ok hout]

end Society

/-- The numbers that a reward is traced back through right after resuming are finite. -/
def Snapshot.Tame (logitScale : Float32) (s : Snapshot) : Prop :=
  ∀ r, s.states.getLast? = some r →
    Cell.Tame (logitScale * 1) (Single.tanh (r.cell.getD Action.idle.index 0))

theorem Cell.tame_of_signed {logitScale shown : Float32} (hscale : Single.Below (-4) logitScale) (hlo : -1 ≤ shown)
    (hhi : shown ≤ 1) : Tame (logitScale * 1) shown := by
  have hone : Single.Below (-23) 1 := .inr ⟨.positive, 8388608, -23, by decide, rfl, Int.le_refl _⟩
  have hshown := Single.below_of_signed hlo hhi
  have hhidden := hscale.mul hone (by decide) (by decide)
  have hsquare := hshown.mul hshown (by decide) (by decide)
  exact ⟨hhidden.isFinite, (hhidden.mul hshown (by decide) (by decide)).isFinite,
    ((hone.mono (by decide)).sub hsquare (by decide) (by decide)).isFinite⟩

/-- They are for every scale of the logits up to a million, if the hyperbolic tangent lies between -1 and 1. -/
theorem Snapshot.tame_of_bounded {logitScale : Float32} (htanh : ∀ x, -1 ≤ Single.tanh x ∧ Single.tanh x ≤ 1)
    (hlo : 0 ≤ logitScale) (hhi : logitScale ≤ 1000000) (s : Snapshot) : s.Tame logitScale := by
  have hmillion : (1000000 : Float32).toModel.unpack = .finite .positive 16000000 (-4) (by decide) := rfl
  exact fun r _ => Cell.tame_of_signed (Single.below_of_le hlo hhi hmillion) (htanh _).1 (htanh _).2

theorem Snapshot.Tame.last {logitScale : Float32} {a : Agent} {states next : List CellState} {memory : MemoryRecord}
    (h : (a.picture states memory).Tame logitScale) (hcarries : List.Forall₂ CellState.Carries states next)
    (t : CellState) (ht : next.getLast? = some t) :
    Cell.Tame (logitScale * 1) (Single.tanh (t.cell.getD Action.idle.index 0)) := by
  refine h t.toRecord ?_
  show (states.map CellState.toRecord).getLast? = some t.toRecord
  rw [CellState.Carries.map_toRecord hcarries, List.getLast?_map, ht]
  rfl

/-- One agent was resumed from what was saved of the other. The two have learned the same and carry on the same, but
the one who was resumed knows nothing of the latest decision and of the step behind it. -/
structure Society.Resumed (id : Uuid) (w loaded : Society) (a b : Agent) (states next : List CellState) : Prop where
  saved : w.Holds id a states
  resumed : loaded.Holds id b next
  config : w.config = loaded.config
  alike : Agent.Alike a b
  binding : a.binding = b.binding
  consolidator : a.consolidator = b.consolidator
  carries : List.Forall₂ CellState.Carries states next
  unaware : b.Unaware
  blank : ∀ t ∈ next, t.Blank

variable {c : Config} {w fresh loaded : Society} {id : Uuid} {a b : Agent} {states next : List CellState}
  {s : Snapshot} {reward reward' : Float32}

theorem Genuine.resumed {detected : Backend} (hw : Genuine c w) (ha : w.Holds id a states) (hs : w.save id = .ok s)
    (hfresh : Society.ofConfig c detected = .ok fresh) (hload : fresh.load s = (.ok id, loaded)) :
    ∃ b next, Society.Resumed id w loaded a b states next := by
  have hok : (fresh.load s).1 = .ok id := congrArg Prod.fst hload
  have hbuffer := hw.sound.hasBuffer_of_load ha hfresh hs hok
  obtain ⟨a₀, b, handles, left, p, next, hass, hsees, hrestore, hb⟩ :=
    (Society.owned_ofConfig hfresh).holds_loaded hok
  obtain ⟨memory, hm, rfl⟩ := ha.of_save hs
  rw [(hw.sound.whole id a states ha).sound.memory.record hbuffer] at hm
  obtain rfl := Except.ok.inj hm
  obtain ⟨loaded', b', next', hload', hb', halike, hbinding, hconsolidator, -, hcarries, howned, -⟩ :=
    hw.sound.load_fresh ha hfresh hbuffer
  obtain rfl : loaded = loaded' := congrArg Prod.snd (hload.symm.trans hload')
  rw [hload] at hb
  obtain ⟨rfl, rfl⟩ := hb.unique hb'
  refine ⟨b, next, ha, hb, hw.sound.owned.config.trans howned.config.symm, halike, hbinding.symm, hconsolidator.symm,
    hcarries, ?_, ?_⟩
  · refine Agent.unaware_of_restore ?_ hsees hrestore
    obtain ⟨_, _, _, -, -, rfl⟩ := Agent.assemble_cases hass
    rfl
  · have hhandles : b.handles = a₀.handles := by
      obtain ⟨_, _, _, hkeep, -, hact, -⟩ := Agent.isLocal_restore _ a₀ p p _ hsees hsees
      obtain ⟨-, hact⟩ := Prod.mk.inj (hrestore.symm.trans hact)
      obtain ⟨rfl, -⟩ := Prod.mk.inj hact
      exact hkeep.handles
    have hlen : next.length = (Agent.initialStates a.binding fresh.controller).length := by
      rw [hb.sees.length_eq, hhandles, ← hsees.length_eq]
      rfl
    exact Agent.blank_of_restore (Agent.blank_initialStates _ _) hsees hlen hrestore

namespace Society.Resumed

theorem rewarded_detached (h : Resumed id w loaded a b states next) (hs : a.controller = none) :
    loaded.rewarded id reward' = w.rewarded id reward := by
  rw [h.saved.rewarded_error (Agent.rewarded_detached hs _ _ _),
    h.resumed.rewarded_error (Agent.rewarded_detached (h.alike.controller.symm.trans hs) _ _ _), h.binding,
    h.alike.controller]

/-- Where neither reward counts for anything, only the tasks pull at the parameters, and at both alike. -/
theorem rewarded_nothing (h : Resumed id w loaded a b states next)
    (hr : a.rewardUpdates w.pools w.config reward = .ok [])
    (hr' : b.rewardUpdates loaded.pools loaded.config reward' = .ok []) :
    loaded.rewarded id reward' = w.rewarded id reward :=
  (h.saved.rewarded_congr h.resumed h.config h.binding h.consolidator h.alike.controller (hr.trans hr'.symm)).symm

theorem rewarded_same (h : Resumed id w loaded a b states next) (hr : a.ticks = 0 ∨ reward.isFinite = false) :
    loaded.rewarded id reward = w.rewarded id reward := by
  have hr' : b.ticks = 0 ∨ reward.isFinite = false := hr.imp_left (h.alike.ticks.symm.trans ·)
  exact h.rewarded_nothing (Agent.rewardUpdates_nothing (hr.imp_right .inr) _ _)
    (Agent.rewardUpdates_nothing (hr'.imp_right .inr) _ _)

/-- Every reward reaches the agent that was resumed, but no update for it is a number. -/
theorem reinforce (h : Resumed id w loaded a b states next) (hl : Genuine c loaded) {stack : Stack}
    (hs : a.controller = some stack) (reward : Float32) : ∃ rewards pulls report w',
      b.rewardUpdates loaded.pools c reward = .ok rewards ∧ (∀ u ∈ rewards, u.2.isNaN = true) ∧
      a.penaltyUpdates c stack.flatten = .ok pulls ∧ loaded.reinforce id reward = (.ok report, w') ∧
      w'.agent id = .ok (b.applyUpdates stack (rewards ++ pulls)) := by
  obtain ⟨rewards, pulls, report, w', hrewards, hpulls, hr, hagent⟩ :=
    hl.reinforce_ok h.resumed (h.alike.controller.symm.trans hs) reward
  refine ⟨rewards, pulls, report, w', hrewards, Agent.isNaN_rewardUpdates h.blank h.resumed.sees hrewards, ?_, hr,
    hagent⟩
  rw [Agent.penaltyUpdates, h.consolidator]
  exact hpulls

end Society.Resumed

/-- **A reward after resuming counts for nothing.** Let `w` save the agent `a` as `s`, and `fresh`, of the same
configuration, load it into `loaded`. If `a` has no controller, has not ticked, or `reward` is not finite,
`rewarded id reward` is the same in `loaded` and `w`. If `s.Tame`, it is in `loaded` what it is in `w` for an infinite
reward, which adds no update, and the same in both after a degraded decision. In all cases the agent `b` of `loaded`
has the binding, controller and consolidator of `a`, `reinforce` succeeds on it, every update from the reward is NaN,
and all others are the `penaltyUpdates` of `a`. -/
theorem Genuine.reward_after_resuming {detected : Backend} (hw : Genuine c w) (ha : w.agent id = .ok a)
    (hs : w.save id = .ok s) (hfresh : Society.ofConfig c detected = .ok fresh)
    (hload : fresh.load s = (.ok id, loaded)) :
    (∀ reward, a.controller = none ∨ a.ticks = 0 ∨ reward.isFinite = false →
      loaded.rewarded id reward = w.rewarded id reward) ∧
    (s.Tame c.controller.logitScale → ∀ reward,
      loaded.rewarded id reward = w.rewarded id Single.infinity ∧
      (a.decision.degraded = true → loaded.rewarded id reward = w.rewarded id reward)) ∧
    ∃ b, loaded.agent id = .ok b ∧ b.binding = a.binding ∧ b.controller = a.controller ∧
      b.consolidator = a.consolidator ∧ ∀ reward stack, a.controller = some stack →
        ∃ rewards pulls report w', b.rewardUpdates loaded.pools c reward = .ok rewards ∧
          (∀ u ∈ rewards, u.2.isNaN = true) ∧ a.penaltyUpdates c stack.flatten = .ok pulls ∧
          loaded.reinforce id reward = (.ok report, w') ∧
          w'.agent id = .ok (b.applyUpdates stack (rewards ++ pulls)) := by
  obtain ⟨states, hheld⟩ := hw.sound.owned.holds_agent ha
  obtain ⟨b, next, h⟩ := hw.resumed hheld hs hfresh hload
  have hloaded : Genuine c loaded := by
    have := Genuine.load (.start _ hfresh) hw hs
    rwa [hload] at this
  refine ⟨fun reward => ?_, fun htame reward => ?_, b, h.resumed.agent, h.binding.symm,
    h.alike.controller.symm, h.consolidator.symm, fun reward stack hs => h.reinforce hloaded hs reward⟩
  · rintro (hs | hr)
    · exact h.rewarded_detached hs
    · exact h.rewarded_same hr
  · obtain ⟨memory, -, rfl⟩ := hheld.of_save hs
    cases hs : a.controller with
    | none => exact ⟨h.rewarded_detached hs, fun _ => h.rewarded_detached hs⟩
    | some stack =>
      obtain ⟨rewards, _, _, _, hrewards, -⟩ := h.reinforce hloaded hs reward
      obtain rfl := h.unaware.rewardUpdates h.blank h.resumed.sees (htame.last h.carries) hrewards
      rw [← hloaded.sound.owned.config] at hrewards
      exact ⟨h.rewarded_nothing (Agent.rewardUpdates_nothing (.inr (.inr rfl)) _ _) hrewards,
        fun hreflex => h.rewarded_nothing (Agent.rewardUpdates_nothing (.inr (.inl hreflex)) _ _) hrewards⟩

/-- So it is for an agent of the default configuration that has just decided on its own. -/
theorem reward_after_resuming_by_default : ∃ w a s detected fresh loaded b stack, Genuine {} w ∧
    w.agent ⟨1, 2⟩ = .ok a ∧ a.ticks = 2 ∧ a.decision.degraded = false ∧ w.save ⟨1, 2⟩ = .ok s ∧
    Society.ofConfig {} detected = .ok fresh ∧ fresh.load s = (.ok ⟨1, 2⟩, loaded) ∧
    (∀ reward, reward.isFinite = false → loaded.rewarded ⟨1, 2⟩ reward = w.rewarded ⟨1, 2⟩ reward) ∧
    ((∀ x, -1 ≤ Single.tanh x ∧ Single.tanh x ≤ 1) →
      ∀ reward, loaded.rewarded ⟨1, 2⟩ reward = w.rewarded ⟨1, 2⟩ Single.infinity) ∧
    loaded.agent ⟨1, 2⟩ = .ok b ∧ b.controller = some stack ∧ ∀ reward, ∃ rewards pulls report w',
      (∀ u ∈ rewards, u.2.isNaN = true) ∧ a.penaltyUpdates {} stack.flatten = .ok pulls ∧
      loaded.reinforce ⟨1, 2⟩ reward = (.ok report, w') ∧
      w'.agent ⟨1, 2⟩ = .ok (b.applyUpdates stack (rewards ++ pulls)) := by
  obtain ⟨w₀, hw₀, a₀, ha₀, hshared, hticks⟩ : ∃ w, Native {} w ∧
      ∃ a, w.agent ⟨1, 2⟩ = .ok a ∧ a.binding = .shared ∧ a.ticks = 0 :=
    ⟨_, .next (.spawn ⟨⟨1, 2⟩, "Vex", .rogue, none⟩) rfl (.start .scalar rfl), _, rfl, rfl, rfl⟩
  have hsteady := hw₀.genuine.steady rfl (by decide) (by decide)
  obtain ⟨w, a, hw, ha, hbinding, hticked, hdecided, -⟩ :=
    hw₀.comes_to_decide hsteady ha₀ (by rw [hshared]; decide)
  have hsound := hw.genuine.sound
  obtain ⟨states, hheld⟩ := hsound.owned.holds_agent ha
  obtain ⟨stack, hcontroller, -⟩ := (hsound.whole _ a states hheld).sound.bound.attached
    (by rw [hbinding, hshared]; decide)
  obtain ⟨detected, fresh, hfresh, -⟩ := hw.genuine.reachable.starts
  obtain ⟨loaded, _, _, hload, -⟩ := hsound.load_fresh hheld hfresh (by decide)
  have hs := hsound.save_eq hheld (by decide)
  obtain ⟨hnothing, htame, b, hb, -, hsame, -, hattached⟩ := hw.genuine.reward_after_resuming ha hs hfresh hload
  refine ⟨w, a, _, detected, fresh, loaded, b, stack, hw.genuine, ha, by rw [hticked, hticks]; rfl, hdecided, hs,
    hfresh, hload, fun reward hr => hnothing reward (.inr (.inr hr)), fun hbounded reward => ?_, hb,
    hsame.trans hcontroller, fun reward => ?_⟩
  · exact (htame (Snapshot.tame_of_bounded hbounded (by decide) (by decide) _) reward).1
  · obtain ⟨rewards, pulls, report, w', -, hnan, hrest⟩ := hattached reward stack hcontroller
    exact ⟨rewards, pulls, report, w', hnan, hrest⟩

end NpcMind
