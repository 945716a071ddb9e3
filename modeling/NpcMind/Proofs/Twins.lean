import NpcMind.Proofs.Upkeep

/-!
# The same agent in two societies

Two societies may hold agents of one identity that are alike, while everything else about them differs. Such
twins answer ticks, shifts and resets in the same way and stay alike, as long as both are offered the same
to recall. If they also learn alike, the same is saved of both.
-/

namespace NpcMind

open StatePools Outcome

/-! ### Boards -/

/-- What an offer to a board depends on. -/
def Board.content (b : Board) : Memory × Float32 := (b.memory, b.threshold)

theorem Board.publish_content {b b' : Board} (h : b.content = b'.content) (value : Vec)
    (importance : Float32) : (b.publish value importance).map (fun r => r.2.content) =
      (b'.publish value importance).map fun r => r.2.content := by
  obtain ⟨hmemory, hthreshold⟩ := Prod.mk.inj h
  unfold Board.publish
  rw [hmemory, hthreshold]
  split
  · rfl
  · cases b'.memory.write value importance with
    | error e => rfl
    | ok r => obtain ⟨_ | stored, memory⟩ := r <;> rfl

/-- The same was told to both boards. -/
theorem Society.tell_content {board board' : Option Board} {a b : Agent}
    (h : board.map Board.content = board'.map Board.content) (hg : a.gossip = b.gossip) :
    (tell board a).1.map Board.content = (tell board' b).1.map Board.content := by
  unfold tell
  rw [hg]
  cases board with
  | none =>
    obtain rfl := Option.map_eq_none_iff.mp h.symm
    rfl
  | some k =>
    obtain ⟨k', rfl, hk⟩ := Option.map_eq_some_iff.mp h.symm
    cases b.gossip with
    | none => exact h
    | some told =>
      have hpublish := Board.publish_content hk.symm told.1 told.2
      dsimp only
      cases hp : k.publish told.1 told.2 with
      | error e =>
        cases hp' : k'.publish told.1 told.2 with
        | error e' => exact h
        | ok r' =>
          rw [hp, hp'] at hpublish
          cases hpublish
      | ok r =>
        cases hp' : k'.publish told.1 told.2 with
        | error e' =>
          rw [hp, hp'] at hpublish
          cases hpublish
        | ok r' =>
          rw [hp, hp'] at hpublish
          exact congrArg some (Except.ok.inj hpublish)

namespace Agent

variable {c : Config} {shared : Stack} {a b : Agent} {p : StatePools} {states states' : List CellState}

/-! ### Shifts and resets -/

theorem Alike.shift (h : Alike a b) (change : Float32) :
    Alike (a.shiftRelationship change) (b.shiftRelationship change) := by
  unfold shiftRelationship
  rw [h.affect]
  exact ⟨h.profile, h.controller, h.outputSize, h.memory, rfl, h.levels, h.expectation, h.workingMemory,
    h.longTermContext, h.sampler, h.ticks, h.overBudget⟩

theorem LearnsAlike.shift (h : LearnsAlike a b) (change : Float32) :
    LearnsAlike (a.shiftRelationship change) (b.shiftRelationship change) :=
  ⟨h.binding, h.consolidator, h.accumulator, h.writesSinceConsolidation, h.importanceSum⟩

/-- The agent after a reset. -/
def renewed (a : Agent) : Agent :=
  { a with
    affect := a.affect.reset
    attention := .initial a.profile.archetype
    longTermContext := Vec.zeros a.longTermContext.size
    memory := a.memory.clear
    accumulator := a.accumulator.reset
    sampler := a.sampler.rewind
    writesSinceConsolidation := 0
    importanceSum := 0
    gossip := none
    decision := {}
    ticks := 0 }

theorem resetAct_eq (hv : Sees p.layers a.handles states) :
    resetAct a p = (.ok (), a.renewed, p.put a.handles (states.map CellState.reset)) := by
  simp only [resetAct, Agent.reset, reset_eq hv]
  rfl

theorem Alike.renewed (h : Alike a b) : Alike a.renewed b.renewed := by
  unfold Agent.renewed
  rw [h.affect, h.profile, h.longTermContext, h.memory, h.sampler]
  exact ⟨rfl, h.controller, h.outputSize, rfl, rfl, rfl, rfl, rfl, rfl, rfl, rfl, rfl⟩

theorem LearnsAlike.renewed (h : LearnsAlike a b) : LearnsAlike a.renewed b.renewed := by
  unfold Agent.renewed
  rw [h.accumulator]
  exact ⟨h.binding, h.consolidator, rfl, rfl, rfl⟩

/-- **Sound agents of one profile and with the same parameters are alike after a reset**, whatever they went
through before. -/
theorem Sound.alike_renewed (ha : a.Sound c shared) (hb : b.Sound c shared) (hp : a.profile = b.profile)
    (hc : a.controller = b.controller) : Alike a.renewed b.renewed where
  profile := hp
  controller := hc
  outputSize := by
    have hsize := ha.bound.outputSize
    rw [hc] at hsize
    exact hsize.trans hb.bound.outputSize.symm
  memory := ha.memory.clear.trans hb.memory.clear.symm
  affect := by
    have hbaseline : a.affect.baseline = b.affect.baseline := by rw [ha.baseline, hb.baseline, hp]
    simp only [Agent.renewed, Affect.reset, hbaseline]
  levels := by simp only [Agent.renewed, hp]
  expectation := rfl
  workingMemory := rfl
  longTermContext := congrArg Vec.zeros (ha.context.trans hb.context.symm)
  sampler := by
    have hseed : a.sampler.seed = b.sampler.seed := by rw [ha.seed, hb.seed, hp]
    simp only [Agent.renewed, Sampler.rewind, hseed]
  ticks := rfl
  overBudget := rfl

theorem carries_reset {controller : Option Stack} (h : StatesFit controller states)
    (h' : StatesFit controller states') :
    List.Forall₂ CellState.Carries (states.map CellState.reset) (states'.map CellState.reset) := by
  unfold StatesFit at h h'
  generalize (controller.map Stack.hiddenSizes).getD [] = sizes at h h'
  induction h generalizing states' with
  | nil =>
    cases h'
    exact .nil
  | cons hs _ ih =>
    cases h' with
    | cons hs' hrest =>
      refine .cons ⟨?_, ?_, rfl⟩ (ih hrest)
      · exact congrArg Vec.zeros (hs.hidden.trans hs'.hidden.symm)
      · exact congrArg Vec.zeros (hs.cell.trans hs'.cell.symm)

end Agent

namespace Society

variable {c : Config} {w w' : Society} {id : Uuid} {a b : Agent} {states next : List CellState}
  {learning : Prop}

/-! ### Twins -/

/-- Two societies hold agents of one identity that are alike, and that learn alike if that is asked for. -/
def Twins (learning : Prop) (id : Uuid) (w w' : Society) : Prop :=
  ∃ a b states states', w.Holds id a states ∧ w'.Holds id b states' ∧ Agent.Alike a b ∧
    (learning → Agent.LearnsAlike a b) ∧ List.Forall₂ CellState.Carries states states'

/-- A tick of an agent that is there, and what is told after it. -/
theorem Holds.tick (h : w.Holds id a states) {s : Senses} {e : Encounter} {dt : Float32} {taskId : Uuid}
    (ht : a.tick (w.surroundings taskId) w.pools s e dt = .ok (b, w.pools.put a.handles next))
    (hlen : next.length = states.length) (hb : b.handles = a.handles) :
    (w.tick id s e dt taskId).1 = .ok b.decision ∧
      (w.tick id s e dt taskId).2.Holds id { b with gossip := none } next ∧
      (w.tick id s e dt taskId).2.board = (tell w.board b).1 := by
  obtain ⟨k, hk, ha, hv⟩ := h
  have htick : w.tick id s e dt taskId = (.ok b.decision, { w with
      pools := w.pools.put a.handles next
      board := (tell w.board b).1
      agents := w.agents.set k { b with gossip := none } }) := by
    simp only [Society.tick, locate_ok hk ha, ht, tell_snd]
  rw [htick]
  refine ⟨rfl, ⟨k, hk, SlotPool.get?_set_self ha, ?_⟩, rfl⟩
  dsimp only
  rw [hb]
  exact sees_putAll hv hlen

theorem Holds.tick_error (h : w.Holds id a states) {s : Senses} {e : Encounter} {dt : Float32} {taskId : Uuid}
    {err : Error} (ht : a.tick (w.surroundings taskId) w.pools s e dt = .error err) :
    w.tick id s e dt taskId = (.error err, w) := by
  obtain ⟨k, hl⟩ := h.locate
  simp only [Society.tick, hl, ht]

/-- **Twins make the same decision**, are twins again after it, and have the same to tell. The identities that
tasks get may differ. -/
theorem Twins.tick (h : Twins learning id w w') (hc : w.config = w'.config) (hm : w.backend = w'.backend)
    (hboard : w.board.map Board.memory = w'.board.map Board.memory) (s : Senses) (e : Encounter)
    (dt : Float32) (taskId taskId' : Uuid) :
    (w.tick id s e dt taskId).1 = (w'.tick id s e dt taskId').1 ∧
      Twins learning id (w.tick id s e dt taskId).2 (w'.tick id s e dt taskId').2 ∧
      (w.board.map Board.content = w'.board.map Board.content →
        (w.tick id s e dt taskId).2.board.map Board.content =
          (w'.tick id s e dt taskId').2.board.map Board.content) := by
  obtain ⟨a, b, states, states', ha, hb, hab, hlearn, hs⟩ := h
  have henv : (w.surroundings taskId).Alike (w'.surroundings taskId') :=
    ⟨hc, hm, congrArg (fun c : Config => c.numerics.guard) hc, hboard⟩
  have hagree := hab.tick henv ha.sees hb.sees hs s e dt
  cases hta : a.tick (w.surroundings taskId) w.pools s e dt with
  | error err =>
    rw [hta] at hagree
    cases htb : b.tick (w'.surroundings taskId') w'.pools s e dt with
    | error err' =>
      rw [htb] at hagree
      cases hagree
      rw [ha.tick_error hta, hb.tick_error htb]
      exact ⟨rfl, ⟨a, b, states, states', ha, hb, hab, hlearn, hs⟩, fun hcontent => hcontent⟩
    | ok r' =>
      rw [htb] at hagree
      cases hagree
  | ok r =>
    rw [hta] at hagree
    cases htb : b.tick (w'.surroundings taskId') w'.pools s e dt with
    | error err' =>
      rw [htb] at hagree
      cases hagree
    | ok r' =>
      rw [htb] at hagree
      cases hagree with
      | ok ht =>
        obtain ⟨a₁, q⟩ := r
        obtain ⟨b₁, q'⟩ := r'
        obtain ⟨next, next', hlen, hlen', hnext, rfl, rfl⟩ := ht.states
        obtain ⟨hda, hha, hba⟩ := ha.tick hta hlen ht.handles
        obtain ⟨hdb, hhb, hbb⟩ := hb.tick htb (hlen'.trans hs.length_eq) ht.handles'
        have h₁ := ht.alike
        refine ⟨hda.trans (congrArg Except.ok ht.decision |>.trans hdb.symm),
          ⟨_, _, next, next', hha, hhb, ?_, fun hl => ?_, hnext⟩, fun hcontent => ?_⟩
        · exact ⟨h₁.profile, h₁.controller, h₁.outputSize, h₁.memory, h₁.affect, h₁.levels, h₁.expectation,
            h₁.workingMemory, h₁.longTermContext, h₁.sampler, h₁.ticks, h₁.overBudget⟩
        · have hl₁ := ht.learned (hlearn hl)
          exact ⟨hl₁.binding, hl₁.consolidator, hl₁.accumulator, hl₁.writesSinceConsolidation,
            hl₁.importanceSum⟩
        · rw [hba, hbb]
          exact tell_content hcontent ht.gossip

theorem Holds.shiftRelationship (h : w.Holds id a states) (change : Float32) :
    (w.shiftRelationship id change).1 = .ok (a.shiftRelationship change).affect.level ∧
      (w.shiftRelationship id change).2.Holds id (a.shiftRelationship change) states := by
  have hact : Agent.shiftAct change a w.pools = (.ok (a.shiftRelationship change).affect.level,
      a.shiftRelationship change, w.pools.put a.handles states) := by
    rw [put_of_sees h.sees, Agent.shiftAct]
  rw [shiftRelationship_eq_act]
  exact h.act hact rfl rfl

theorem Twins.shiftRelationship (h : Twins learning id w w') (change : Float32) :
    (w.shiftRelationship id change).1 = (w'.shiftRelationship id change).1 ∧
      Twins learning id (w.shiftRelationship id change).2 (w'.shiftRelationship id change).2 := by
  obtain ⟨a, b, states, states', ha, hb, hab, hlearn, hs⟩ := h
  obtain ⟨hoa, hha⟩ := ha.shiftRelationship change
  obtain ⟨hob, hhb⟩ := hb.shiftRelationship change
  have hshift := hab.shift change
  refine ⟨?_, _, _, states, states', hha, hhb, hshift, fun hl => (hlearn hl).shift change, hs⟩
  rw [hoa, hob, hshift.affect]

/-- A reset of an agent that is there succeeds. -/
theorem Holds.reset (h : w.Holds id a states) :
    (w.reset id).1 = .ok () ∧ (w.reset id).2.Holds id a.renewed (states.map CellState.reset) := by
  rw [reset_eq_act]
  exact h.act (Agent.resetAct_eq h.sees) (List.length_map _) rfl

theorem Twins.reset (h : Twins learning id w w') :
    (w.reset id).1 = (w'.reset id).1 ∧ Twins learning id (w.reset id).2 (w'.reset id).2 := by
  obtain ⟨a, b, states, states', ha, hb, hab, hlearn, hs⟩ := h
  obtain ⟨hoa, hha⟩ := ha.reset
  obtain ⟨hob, hhb⟩ := hb.reset
  refine ⟨hoa.trans hob.symm, _, _, _, _, hha, hhb, hab.renewed, fun hl => (hlearn hl).renewed, ?_⟩
  exact List.forall₂_map_left_iff.mpr (List.forall₂_map_right_iff.mpr (hs.imp fun _ _ => .reset))

/-- The same is saved of twins that learn alike, but for the identities of tasks. -/
theorem Twins.save (h : Twins learning id w w') (hlearning : learning) :
    (w.save id).map Snapshot.anonymous = (w'.save id).map Snapshot.anonymous := by
  obtain ⟨a, b, states, states', ha, hb, hab, hlearn, hs⟩ := h
  rw [ha.save, hb.save, hab.memory]
  cases b.memory.record with
  | error e => rfl
  | ok memory => exact congrArg Except.ok (hab.picture (hlearn hlearning) hs memory)

end Society

end NpcMind
