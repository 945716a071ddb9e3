import NpcMind.Proofs.FlatOrder
import NpcMind.Proofs.Histories

/-!
# Sharing parameters

The binding of an agent says whose parameters it decides with, but the parameters stand beside it. Spawning
puts the two together, and the first update of shared parameters gives the agent its own and says so. Only a
snapshot can bring them apart: one of a shared agent that carries parameters is taken in, and the agent has
parameters of its own from then on that are not saved. `Candid` leaves such snapshots out, and with them
every way to lose parameters.
-/

namespace NpcMind

open StatePools Outcome

/-- The snapshot does not say of an agent that it shares parameters and then carry other ones. -/
def Snapshot.Candid (shared : Stack) (s : Snapshot) : Prop :=
  s.binding = .shared → s.parameters = none ∨ s.parameters = some shared.flatten

/-- A society of that configuration after some requests, with every snapshot candid that was taken in. -/
inductive Candid (c : Config) : Society → Prop
  | start {w : Society} (detected : Backend) : Society.ofConfig c detected = .ok w → Candid c w
  | next {w : Society} (r : Request) : Candid c w →
      (∀ s id, r = .load s → (w.load s).1 = .ok id → s.Candid w.controller) → Candid c (w.serve r).2

/-! ### Agents that share -/

namespace Agent

variable {a b : Agent} {shared : Stack} {c : Config} {p : StatePools}

/-- Whoever is said to share parameters has the shared ones, and whoever is said to have none has none. -/
structure Loyal (shared : Stack) (a : Agent) : Prop where
  shared : a.binding = .shared → a.controller = some shared
  detached : a.binding = .detached → a.controller = none

theorem Loyal.of_eq (h : a.Loyal shared) (hb : b.binding = a.binding) (hc : b.controller = a.controller) :
    b.Loyal shared := by
  refine ⟨fun hs => ?_, fun hd => ?_⟩
  · rw [hc]
    exact h.shared (hb ▸ hs)
  · rw [hc]
    exact h.detached (hb ▸ hd)

/-- Parameters of one's own are said to be so. -/
theorem Loyal.perAgent {stack : Stack} (h : a.Loyal shared) (hc : a.controller = some stack)
    (hne : stack ≠ shared) : a.binding = .perAgent := by
  cases hb : a.binding with
  | shared =>
    have hshared := h.shared hb
    rw [hc] at hshared
    exact absurd (Option.some.inj hshared) hne
  | perAgent => rfl
  | detached =>
    have hnone := h.detached hb
    rw [hc] at hnone
    cases hnone

theorem loyal_assemble {profile : Profile} {binding : Binding} {handles : List Handle} {left : Budget}
    (h : assemble profile binding (initialController binding shared) handles left c = .ok a) :
    a.Loyal shared := by
  obtain ⟨_, _, _, -, -, rfl⟩ := assemble_cases h
  refine ⟨fun hs => ?_, fun hd => ?_⟩
  · exact if_neg fun hd => absurd (hs.symm.trans hd) (by decide)
  · exact if_pos hd

/-- An update gives an agent that shares its parameters its own. -/
theorem Loyal.applyUpdates (h : a.Loyal shared) {stack : Stack} (hc : a.controller = some stack)
    (updates : List (Nat × Float32)) : (a.applyUpdates stack updates).Loyal shared := by
  unfold Agent.applyUpdates
  split
  · exact h
  · refine ⟨fun hs => ?_, fun hd => ?_⟩
    · dsimp only at hs
      split at hs
      · cases hs
      · next hne => exact absurd hs hne
    · dsimp only at hd
      split at hd
      · cases hd
      · have hnone := h.detached hd
        rw [hc] at hnone
        cases hnone

theorem Loyal.reinforce (h : a.Loyal shared) {reward : Float32} {report : PenaltyReport Float32}
    (hr : a.reinforce p c reward = .ok (report, b)) : b.Loyal shared := by
  unfold Agent.reinforce at hr
  split at hr
  · cases hr
  · next stack hc =>
    obtain ⟨rewards, -, hr⟩ := ok_of_bind hr
    obtain ⟨pulls, -, hr⟩ := ok_of_bind hr
    obtain ⟨_, -, hr⟩ := ok_of_bind hr
    cases hr
    exact h.applyUpdates hc _

theorem lasting_loyal (c : Config) (shared : Stack) : Lasting c (fun _ => True) fun a _ => a.Loyal shared where
  tick {env a p states} s e dt _ _ _ ha hv := by
    obtain ⟨out, b, next, -, hlen, hact, -⟩ := isLocal_tickAct env s e dt a p p states hv hv
    refine ⟨out, b, next, hact, hlen, ?_⟩
    unfold tickAct at hact
    cases ht : a.tick env p s e dt with
    | error err =>
      rw [ht] at hact
      obtain ⟨rfl, -⟩ := Prod.mk.inj (Prod.mk.inj hact).2
      exact ha
    | ok r =>
      rw [ht] at hact
      obtain ⟨rfl, -⟩ := Prod.mk.inj (Prod.mk.inj hact).2
      obtain ⟨hbinding, hcontroller⟩ := tick_parameters ht
      exact ha.of_eq hbinding hcontroller
  reset ha := ha.of_eq rfl rfl
  reinforce ha hr := ha.reinforce hr
  shift _ ha := ha.of_eq rfl rfl

/-- What a resumed agent decides with. -/
theorem parameters_of_restore {s : Snapshot} {states next : List CellState} (hv : Sees p.layers a.handles states)
    (h : a.restore s p = (.ok (), b, p.put a.handles next)) : b.binding = a.binding ∧
      (s.parameters = none ∧ b.controller = a.controller ∨
        ∃ values stack stack', s.parameters = some values ∧ a.controller = some stack ∧
          stack.load values = .ok stack' ∧ b.controller = some stack') := by
  obtain ⟨a₁, _, -, hparameters, -, hrecords, -⟩ := of_restore hv h
  obtain ⟨memory, consolidator, accumulator, -, -, -, rfl⟩ := of_takeRecords hrecords
  rcases takeParameters_cases hparameters with ⟨hnone, rfl⟩ | ⟨values, stack, stack', hsome, hstack, hload, rfl⟩
  · exact ⟨rfl, .inl ⟨hnone, rfl⟩⟩
  · exact ⟨rfl, .inr ⟨values, stack, stack', hsome, hstack, hload, rfl⟩⟩

/-- An agent resumed from a candid snapshot is as loyal as the one it is resumed in. -/
theorem Loyal.restore (h : a.Loyal shared) (hshared : shared.Fits shared) {s : Snapshot}
    (hs : s.Candid shared) (hb : a.binding = s.binding) {states next : List CellState}
    (hv : Sees p.layers a.handles states) (hr : a.restore s p = (.ok (), b, p.put a.handles next)) :
    b.Loyal shared := by
  obtain ⟨hbinding, ⟨-, hc⟩ | ⟨values, stack, stack', hvalues, hstack, hload, hc⟩⟩ := parameters_of_restore hv hr
  · exact h.of_eq hbinding hc
  · refine ⟨fun hsharing => ?_, fun hd => ?_⟩
    · have hsame := h.shared (hbinding.symm.trans hsharing)
      rw [hstack] at hsame
      cases hsame
      have hflat := (hs (hb.symm.trans (hbinding.symm.trans hsharing))).resolve_left (by simp [hvalues])
      rw [hvalues] at hflat
      cases hflat
      rw [hshared.load_flatten] at hload
      cases hload
      exact hc
    · have hnone := h.detached (hbinding.symm.trans hd)
      rw [hstack] at hnone
      cases hnone

end Agent

/-! ### Societies -/

namespace Society

variable {c c' : Config} {w w' : Society} {id : Uuid} {a : Agent} {states : List CellState}

/-- Every agent is loyal. -/
def Loyal (c : Config) (w : Society) : Prop := Each c (fun _ => True) (fun a _ => a.Loyal w.controller) w

theorem Loyal.serve (hw : w.Loyal c) {r : Request}
    (hr : ∀ s id, r = .load s → (w.load s).1 = .ok id → s.Candid w.controller) : (w.serve r).2.Loyal c := by
  unfold Loyal
  rw [hw.owned.controller_eq (hw.owned.serve r).2]
  cases r with
  | spawn p => exact Each.spawnWith hw fun _ _ _ hass => Agent.loyal_assemble hass
  | spawnWith p binding => exact Each.spawnWith hw fun _ _ _ hass => Agent.loyal_assemble hass
  | load s =>
    cases hload : (w.load s).1 with
    | error e =>
      have hsame := hw.owned.load_unchanged hload
      refine ⟨(hw.owned.serve (.load s)).2, trivial, fun id a states h => ?_⟩
      exact hw.holds id a states (hsame.holds.mp h)
    | ok id =>
      refine Each.load hw fun handles left a hass => ?_
      have hloyal := Agent.loyal_assemble hass
      refine ⟨hloyal, fun b p next hv hrestore _ => ?_⟩
      refine hloyal.restore hw.owned.shape (hr s id rfl hload) ?_ hv hrestore
      obtain ⟨_, _, _, -, -, rfl⟩ := Agent.assemble_cases hass
      rfl
  | _ => exact Each.serve_stay hw (Agent.lasting_loyal c w.controller) enduring_true rfl

/-- What is saved of an agent's parameters. A memory without a buffer for its contents is not saved, and
nor is its agent. -/
theorem Holds.save_parameters (h : w.Holds id a states) :
    (w.save id).map Snapshot.parameters =
      if a.memory.isBacked then .ok (if a.binding = .perAgent then a.controller.map Stack.flatten else none)
      else .error .outOfBounds := by
  rw [h.save, Memory.record]
  split <;> rfl

/-- Whoever is loaded was spawned and then resumed. -/
theorem Owned.holds_loaded (hw : w.Owned c) {s : Snapshot} (h : (w.load s).1 = .ok id) :
    ∃ a b handles left p next,
      Agent.assemble s.profile s.binding (Agent.initialController s.binding w.controller) handles left c = .ok a ∧
      Sees p.layers a.handles (Agent.initialStates s.binding w.controller) ∧
      a.restore s p = (.ok (), b, p.put a.handles next) ∧ (w.load s).2.Holds id b next := by
  obtain ⟨hspawn, hrestore, heq⟩ := of_load h
  rw [heq] at h ⊢
  cases h
  obtain ⟨a, handles, left, ha, hass⟩ := hw.holds_spawned hspawn
  obtain ⟨out, b, next, hkeep, hlen, hact, -⟩ := Agent.isLocal_restore s a _ _ _ ha.sees ha.sees
  obtain ⟨hout, hb⟩ := ha.act (f := fun a p => a.restore s p) hact hlen hkeep.handles
  rw [← restore_eq_act] at hout hb
  rw [hout] at hrestore
  subst hrestore
  exact ⟨a, b, handles, left, _, next, hass, ha.sees, hact, hb⟩

end Society

theorem Candid.loyal {c : Config} {w : Society} (hw : Candid c w) : w.Loyal c := by
  induction hw with
  | start _ h => exact Society.each_ofConfig h fun _ _ => trivial
  | next r _ hr ih => exact ih.serve hr

/-- What societies save is candid. -/
theorem Genuine.candid {c : Config} {w : Society} (hw : Genuine c w) : Candid c w := by
  induction hw with
  | start detected h => exact .start detected h
  | next r hr _ ih =>
    refine .next r ih fun s id heq _ => ?_
    rw [heq] at hr
    cases hr
  | @load _ _ w w' id s _ hw' hs ih _ =>
    refine .next (.load s) ih fun s' _ heq _ hshared => ?_
    cases heq
    obtain ⟨a, ha, -⟩ := ok_of_bind hs
    obtain ⟨states, ha⟩ := hw'.sound.owned.holds_agent ha
    obtain ⟨memory, -, rfl⟩ := ha.of_save hs
    exact .inl (if_neg fun hown => absurd (hown.symm.trans hshared) (by decide))
  | @restoreGossip _ _ _ _ r _ _ _ ih _ =>
    refine .next (.restoreGossip r) ih fun s _ heq _ => ?_
    cases heq

theorem Stack.Fits.flatten_of_load {s shared : Stack} (h : shared.Fits shared) {values : Vec}
    (hload : shared.load values = .ok s) : s.flatten = values := by
  have hsize : values.size = shared.parameterCount := by
    by_contra hne
    rw [shared.load_error hne] at hload
    cases hload
  obtain ⟨layers, hlayers, hflat⟩ := loadLayers_ok h.layers hsize
  unfold load at hload
  dsimp only at hload
  rw [if_neg fun hne => hne hsize, hlayers] at hload
  cases hload
  exact hflat

/-- **Agents that share have the shared parameters, unless a snapshot said otherwise.** No requests change
`w.controller`. If `Candid c w`, every agent with binding `shared` has `w.controller`, and one with any other stack is
bound `perAgent` and saves its parameters. A snapshot `s` that is bound `shared` and carries `values` is loaded all
the same: the agent is bound `shared`, its stack flattens to `values`, and none of them are saved, so that its stack
is `w.controller` if and only if `s.Candid w.controller`. -/
theorem Reachable.sharing {c : Config} {w : Society} (hw : Reachable c w) :
    (∀ requests, (w.serveAll requests).controller = w.controller) ∧
    (Candid c w → ∀ id a, w.agent id = .ok a →
      (a.binding = .shared → a.controller = some w.controller) ∧
      ∀ stack, a.controller = some stack → stack ≠ w.controller → a.binding = .perAgent ∧
        (w.save id).map Snapshot.parameters =
          if a.memory.isBacked then .ok (some stack.flatten) else .error .outOfBounds) ∧
    ∀ s id values, s.binding = .shared → s.parameters = some values → (w.load s).1 = .ok id →
      ∃ a stack, (w.load s).2.agent id = .ok a ∧ a.binding = .shared ∧ a.controller = some stack ∧
        stack.flatten = values ∧ (stack = w.controller ↔ s.Candid w.controller) ∧
        ((w.load s).2.save id).map Snapshot.parameters =
          if a.memory.isBacked then .ok none else .error .outOfBounds := by
  have howned := hw.owned
  refine ⟨fun requests => howned.controller_eq (howned.serveAll requests), fun hcandid id a ha => ?_,
    fun s id values hs hvalues hload => ?_⟩
  · obtain ⟨states, hheld⟩ := howned.holds_agent ha
    have hloyal := hcandid.loyal.holds id a states hheld
    refine ⟨hloyal.shared, fun stack hc hne => ?_⟩
    have hown := hloyal.perAgent hc hne
    refine ⟨hown, ?_⟩
    rw [hheld.save_parameters, if_pos hown, hc]
    rfl
  · obtain ⟨a₀, a, handles, left, p, next, hass, hv, hrestore, hheld⟩ := howned.holds_loaded hload
    obtain ⟨hbinding, ⟨hnone, -⟩ | ⟨values', stack₀, stack, hvalues', hstack₀, hstack, hc⟩⟩ :=
      Agent.parameters_of_restore hv hrestore
    · rw [hvalues] at hnone
      cases hnone
    · rw [hvalues] at hvalues'
      cases hvalues'
      have hinitial := Agent.loyal_assemble hass
      have hsharing : a₀.binding = .shared := by
        obtain ⟨_, _, _, -, -, rfl⟩ := Agent.assemble_cases hass
        exact hs
      have hsame := hinitial.shared hsharing
      rw [hstack₀] at hsame
      cases hsame
      have hflat := howned.shape.flatten_of_load hstack
      have hshared : a.binding = .shared := hbinding.trans hsharing
      refine ⟨a, stack, hheld.agent, hshared, hc, hflat, ?_, ?_⟩
      · constructor
        · rintro rfl _
          exact .inr (by rw [hvalues, hflat])
        · intro hcandid
          have heq := (hcandid hs).resolve_left (by simp [hvalues])
          rw [hvalues, ← hflat] at heq
          exact (Stack.fits_of_load howned.shape hstack).eq_of_flatten howned.shape (Option.some.inj heq)
      · rw [hheld.save_parameters, hshared]
        rfl

/-- A rogue of the default configuration that shares its parameters, also after it was punished in vain for a
decision that it did not make. -/
theorem sharing_after_spawn : ∃ w a, Reachable {} w ∧ Candid {} w ∧ w.agent ⟨1, 2⟩ = .ok a ∧
    a.binding = .shared ∧ a.controller = some w.controller ∧
    ∀ requests, (w.serveAll requests).controller = w.controller := by
  obtain ⟨w, a, hw, ha, hb⟩ : ∃ w a, Genuine {} w ∧ w.agent ⟨1, 2⟩ = .ok a ∧ a.binding = .shared :=
    ⟨_, _, .next (.reinforce ⟨1, 2⟩ (-1)) rfl
      (.next (.spawnWith ⟨⟨1, 2⟩, "Vex", .rogue, none⟩ .shared) rfl (.start .scalar rfl)), rfl, rfl⟩
  obtain ⟨hfixed, hsharing, -⟩ := hw.reachable.sharing
  exact ⟨w, a, hw.reachable, hw.candid, ha, hb, (hsharing hw.candid _ _ ha).1 hb, hfixed⟩

end NpcMind
