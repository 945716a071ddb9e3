import NpcMind.Proofs.Holding
import NpcMind.Proofs.Snapshots
import NpcMind.Proofs.Validity

/-!
# What holds of a society all its life

Every agent of a society is sound and the states of its controller fit, and so does the gossip board, as long
as nothing is loaded that was not saved. Requests keep this, each by what it does to the one agent that it
concerns; the others are left alone.
-/

namespace NpcMind

open StatePools Outcome

namespace Config

variable {c : Config}

/-- The memory behind a gossip board. -/
def boardMemory (c : Config) : Config.Memory := { c.memory with slots := c.limits.gossipSlots }

end Config

namespace Society

variable {c : Config} {w w' : Society} {id : Uuid} {β : Type}
  {f : Agent → StatePools → Outcome β × Agent × StatePools}

/-- There is a board if one is configured, and it fits. -/
structure BoardFits (c : Config) (board : Option Board) : Prop where
  configured : board.isSome = true ↔ 0 < c.limits.gossipSlots
  fits : ∀ b, board = some b → b.Fits c.boardMemory c.limits.gossipThreshold

/-- What holds of a society all its life. -/
structure Sound (c : Config) (w : Society) : Prop where
  owned : w.Owned c
  valid : c.validate = .ok ()
  whole : ∀ id a states, w.Holds id a states → Agent.Whole c w.controller a states
  board : BoardFits c w.board

theorem Owned.controller_eq (hw : w.Owned c) (hw' : w'.Owned c) : w'.controller = w.controller :=
  Except.ok.inj (hw'.stack.symm.trans hw.stack)

theorem Owned.shape (hw : w.Owned c) : w.controller.Fits w.controller := Stack.fits_ofConfig hw.stack

/-! ### The board -/

theorem BoardFits.told {board board' : Option Board} (h : BoardFits c board) (ht : Told board board') :
    BoardFits c board' := by
  cases ht with
  | nothing => exact h
  | tell a =>
    unfold Society.tell
    split
    · next b experience importance _ =>
      split
      · next b' hpublish =>
        refine ⟨⟨fun _ => h.configured.mp rfl, fun _ => rfl⟩, fun b'' hb => ?_⟩
        cases hb
        exact (h.fits b rfl).publish hpublish
      · exact h
    · exact h

theorem BoardFits.clear {board : Option Board} (h : BoardFits c board) :
    BoardFits c (board.map Board.clear) := by
  refine ⟨by rw [Option.isSome_map]; exact h.configured, fun b hb => ?_⟩
  obtain ⟨b₀, hb₀, rfl⟩ := Option.map_eq_some_iff.mp hb
  exact (h.fits b₀ hb₀).clear

theorem boardFits_of_config {board : Option Board} (h : boardOf c = .ok board) : BoardFits c board := by
  unfold boardOf at h
  split at h
  · next hslots =>
    obtain ⟨b, hb, h⟩ := ok_of_bind h
    cases h
    refine ⟨⟨fun _ => hslots, fun _ => rfl⟩, fun b' hb' => ?_⟩
    cases hb'
    exact Board.fits_of_ofConfig hb
  · next hslots =>
    cases h
    exact ⟨⟨(nomatch ·), fun h => absurd h hslots⟩, fun b hb => nomatch hb⟩

/-- What a board offers to recall is as wide as an agent's memory. -/
theorem Sound.recalls (hw : w.Sound c) (board : Board) (hb : w.board = some board) :
    ∃ c' threshold, board.Fits c' threshold ∧ c'.width = c.memory.width :=
  ⟨c.boardMemory, c.limits.gossipThreshold, hw.board.fits board hb, rfl⟩

/-! ### Operations on one agent -/

theorem Sound.act (hw : w.Sound c) (hf : Agent.IsLocal f)
    (hup : ∀ a states, w.Holds id a states → Agent.Upholds c w.controller f a w.pools states) :
    (w.act id f).2.Sound c := by
  have howned := hw.owned.act hf id
  refine ⟨howned, hw.valid, fun id' a states h => ?_, by rw [act_board]; exact hw.board⟩
  rw [hw.owned.controller_eq howned]
  have hid : w.contains id' = true := by
    have := h.contains
    rwa [contains, act_index] at this
  by_cases heq : id' = id
  · subst heq
    obtain ⟨a₀, states₀, h₀⟩ := hw.owned.holds hid
    obtain ⟨out, b, next, hact, hlen, hwhole⟩ := hup a₀ states₀ h₀
    obtain ⟨_, _, _, hkeep, -, hact', -⟩ := hf a₀ w.pools w.pools states₀ h₀.sees h₀.sees
    have hb : b.handles = a₀.handles := by
      rw [(Prod.mk.inj (Prod.mk.inj (hact.symm.trans hact')).2).1]
      exact hkeep.handles
    obtain ⟨rfl, rfl⟩ := (h₀.act hact hlen hb).2.unique h
    exact hwhole
  · refine hw.whole id' a states (hw.owned.holds_before hid (fun a₀ states₀ h₀ => ?_) h)
    exact h₀.act_other hw.owned hf (Ne.symm heq)

theorem Sound.tick (hw : w.Sound c) (id : Uuid) (s : Senses) (e : Encounter) (dt : Float32) (taskId : Uuid) :
    (w.tick id s e dt taskId).2.Sound c := by
  obtain ⟨board, heq, htold⟩ := tick_eq_act w id s e dt taskId
  have hact : (w.act id (Agent.tickAct (w.surroundings taskId) s e dt)).2.Sound c := by
    refine hw.act (Agent.isLocal_tickAct (w.surroundings taskId) s e dt) fun a states h => ?_
    exact (hw.whole id a states h).tickAct (Config.accepted_of_validate hw.valid).maxTasks hw.owned.config hw.recalls
      h.sees s e dt
  rw [heq]
  exact ⟨hact.owned.board board, hw.valid, hact.whole, hw.board.told htold⟩

theorem Sound.tickAll (hw : w.Sound c) (dt : Float32) (frames : List Frame) :
    (w.tickAll dt frames).2.Sound c := by
  induction frames generalizing w with
  | nil => exact hw
  | cons f rest ih =>
    have htick := hw.tick f.id f.senses f.encounter dt f.taskId
    unfold Society.tickAll
    generalize w.tick f.id f.senses f.encounter dt f.taskId = r at htick ⊢
    obtain ⟨_ | _, w₁⟩ := r
    · exact htick
    · exact ih htick

theorem Sound.update (hw : w.Sound c) (frames : List Frame) (dt : Float32) :
    (w.update frames dt).2.Sound c := by
  rcases w.update_cases frames dt with ⟨-, heq⟩ | ⟨f, -, -, heq⟩ <;> rw [heq]
  · exact hw.tickAll dt frames
  · exact hw

/-! ### Adding and removing agents -/

/-- A spawned agent is new, and so are the states of its controller. -/
theorem Owned.holds_spawned (hw : w.Owned c) {p : Profile} {binding : Binding}
    (h : (w.spawnWith p binding).1 = .ok id) :
    ∃ a handles left, (w.spawnWith p binding).2.Holds p.id a (Agent.initialStates binding w.controller) ∧
      Agent.assemble p binding (Agent.initialController binding w.controller) handles left c = .ok a := by
  rcases hw.spawnWith_cases p binding with ⟨e, layers, heq, -⟩ |
    ⟨a, left, k, handles, agents, layers, heq, -, hass, hins, -, hsees⟩
  · rw [heq] at h
    cases h
  · rw [heq]
    rw [hw.config] at hass
    refine ⟨a, handles, left, ⟨k, by simp, hins.get?_self, ?_⟩, hass⟩
    obtain ⟨_, _, _, -, -, rfl⟩ := Agent.assemble_cases hass
    exact hsees

/-- Whoever is there after a spawn is the agent that was spawned, or was there before it. -/
theorem Owned.newcomer (hw : w.Owned c) {p : Profile} {binding : Binding} {a : Agent}
    {states : List CellState} (h : (w.spawnWith p binding).2.Holds id a states) :
    w.Holds id a states ∨ (w.spawnWith p binding).1 = .ok id ∧
      states = Agent.initialStates binding w.controller ∧ ∃ handles left,
        Agent.assemble p binding (Agent.initialController binding w.controller) handles left c = .ok a := by
  by_cases hid : w.contains id = true
  · exact .inl (hw.holds_before hid (fun _ _ h₀ => h₀.spawnWith hw p binding) h)
  rcases hw.spawnWith_cases p binding with ⟨e, layers, heq, -⟩ | ⟨_, _, k, _, _, _, heq, -⟩
  · have hcontains := h.contains
    rw [heq] at hcontains
    exact absurd hcontains hid
  · have hok : (w.spawnWith p binding).1 = .ok p.id := by rw [heq]
    have hnew : id = p.id := by
      have hcontains := h.contains
      rw [heq] at hcontains
      simp only [contains, List.lookup_cons] at hcontains hid
      split at hcontains
      · next hbeq => exact beq_iff_eq.mp hbeq
      · exact absurd hcontains hid
    obtain ⟨b, handles, left, hb, hass⟩ := hw.holds_spawned hok
    rw [hnew] at h ⊢
    obtain ⟨rfl, rfl⟩ := hb.unique h
    exact .inr ⟨hok, rfl, handles, left, hass⟩

theorem Owned.whole_spawned (hw : w.Owned c) {p : Profile} {binding : Binding} {a : Agent}
    {handles : List Handle} {left : Budget} (h : (w.spawnWith p binding).1 = .ok id)
    (hass : Agent.assemble p binding (Agent.initialController binding w.controller) handles left c = .ok a) :
    Agent.Whole c w.controller a (Agent.initialStates binding w.controller) := by
  have haffordable := affordable_of_spawnWith h
  rw [hw.config] at haffordable
  exact Agent.whole_of_assemble hw.shape haffordable hass

theorem Sound.spawnWith (hw : w.Sound c) (p : Profile) (binding : Binding) :
    (w.spawnWith p binding).2.Sound c := by
  have howned := hw.owned.spawnWith p binding
  refine ⟨howned, hw.valid, fun id a states h => ?_, by rw [spawnWith_board]; exact hw.board⟩
  rw [hw.owned.controller_eq howned]
  rcases hw.owned.newcomer h with h₀ | ⟨hok, rfl, handles, left, hass⟩
  · exact hw.whole id a states h₀
  · exact hw.owned.whole_spawned hok hass

theorem Sound.despawn (hw : w.Sound c) (id : Uuid) : (w.despawn id).2.Sound c := by
  have howned := (hw.owned.despawn id).2
  refine ⟨howned, hw.valid, fun id' a states h => ?_, by rw [despawn_board]; exact hw.board⟩
  rw [hw.owned.controller_eq howned]
  rcases handle_cases w id with ⟨-, hh⟩ | ⟨k, hk, -⟩
  · simp only [Society.despawn, hh] at h
    exact hw.whole id' a states h
  · obtain ⟨b, agents, -, -, -, heq⟩ := hw.owned.despawn_eq hk
    have hcontains := h.contains
    rw [heq, contains, Owned.lookup_filter] at hcontains
    split at hcontains
    · cases hcontains
    · next hne =>
      refine hw.whole id' a states (hw.owned.holds_before hcontains (fun _ _ h₀ => ?_) h)
      exact h₀.despawn hw.owned (Ne.symm hne)

/-- A snapshot of a sound agent can be loaded, with success or not. -/
theorem Sound.load (hw : w.Sound c) {s : Snapshot} (hs : s.Sound) : (w.load s).2.Sound c := by
  have hspawned := hw.spawnWith s.profile s.binding
  rcases w.load_cases s with ⟨e, heq⟩ | ⟨e, heq⟩ | ⟨hok, hrest⟩
  · rw [heq]
    exact hw
  · rw [heq]
    exact hspawned
  · obtain ⟨a, handles, left, ha, hass⟩ := hw.owned.holds_spawned hok
    have hcontroller := hw.owned.controller_eq hspawned.owned
    have hrestored : ((w.spawnWith s.profile s.binding).2.restore s.profile.id s).2.Sound c := by
      rw [restore_eq_act]
      refine hspawned.act (Agent.isLocal_restore s) fun b states hb => ?_
      obtain ⟨rfl, rfl⟩ := ha.unique hb
      obtain ⟨_, _, _, -, -, rfl⟩ := Agent.assemble_cases hass
      refine (hspawned.whole _ _ _ hb).restore hspawned.owned.shape hs rfl rfl ?_ hb.sees
      rw [hcontroller]
    rcases hrest with ⟨-, heq⟩ | ⟨e, heq⟩
    · rw [heq]
      exact hrestored
    · rw [heq]
      exact hrestored.despawn s.profile.id

/-! ### Requests -/

theorem Holds.save {a : Agent} {states : List CellState} (h : w.Holds id a states) :
    w.save id = a.memory.record.map (a.picture states) := by
  rw [← Agent.snapshot_eq h.sees]
  simp only [Society.save, h.agent, bind, Except.bind]

/-- What was saved of an agent shows it as it was. -/
theorem Holds.of_save {a : Agent} {states : List CellState} (h : w.Holds id a states) {s : Snapshot}
    (hs : w.save id = .ok s) : ∃ memory, a.memory.record = .ok memory ∧ s = a.picture states memory := by
  rw [h.save] at hs
  cases hm : a.memory.record with
  | error e =>
    rw [hm] at hs
    cases hs
  | ok memory =>
    rw [hm] at hs
    cases hs
    exact ⟨memory, rfl, rfl⟩

/-- Only sound agents are saved. -/
theorem Sound.save (hw : w.Sound c) {s : Snapshot} (hs : w.save id = .ok s) : s.Sound := by
  obtain ⟨a, ha, -⟩ := ok_of_bind hs
  obtain ⟨states, ha⟩ := hw.owned.holds_agent ha
  obtain ⟨memory, hm, rfl⟩ := ha.of_save hs
  exact (hw.whole id a states ha).sound.picture hm states

theorem Sound.serve (hw : w.Sound c) {r : Request} (hr : r.bringsRecord = false) :
    (w.serve r).2.Sound c := by
  cases r with
  | spawn p => exact hw.spawnWith p _
  | spawnWith p binding => exact hw.spawnWith p binding
  | despawn id => exact hw.despawn id
  | tick id s e dt taskId => exact hw.tick id s e dt taskId
  | update frames dt => exact hw.update frames dt
  | reset id =>
    simp only [Society.serve, answer, reset_eq_act]
    exact hw.act Agent.isLocal_resetAct fun a states h => (hw.whole id a states h).resetAct h.sees
  | reinforce id reward =>
    simp only [Society.serve, answer, reinforce_eq_act, hw.owned.config]
    exact hw.act (Agent.isLocal_reinforceAct c reward) fun a states h =>
      (hw.whole id a states h).reinforceAct h.sees reward
  | shiftRelationship id change =>
    simp only [Society.serve, answer, shiftRelationship_eq_act]
    exact hw.act (Agent.isLocal_shiftAct change) fun a states h =>
      (hw.whole id a states h).shiftAct h.sees change
  | save id => exact hw
  | clearGossip => exact ⟨hw.owned.board _, hw.valid, hw.whole, hw.board.clear⟩
  | load | restoreGossip => cases hr

/-- What a board saved can be put back on a board, with success or not. -/
theorem Sound.restoreGossip (hw : w.Sound c) {c' : Config} (hw' : w'.Sound c') {r : MemoryRecord}
    (hr : w'.gossipRecord = .ok (some r)) : (w.serve (.restoreGossip r)).2.Sound c := by
  have hback : r.slots = 0 ∨ Memory.hasBuffer r.slots r.width = true := by
    unfold gossipRecord at hr
    cases hb : w'.board with
    | none =>
      rw [hb] at hr
      cases hr
    | some b =>
      rw [hb] at hr
      obtain ⟨record, hrecord, hr⟩ := ok_of_bind hr
      cases hr
      exact (hw'.board.fits b hb).memory.backed_of_record hrecord
  obtain ⟨board, heq, hboard⟩ := serve_restoreGossip w r
  rw [heq]
  refine ⟨hw.owned.board board, hw.valid, hw.whole, ?_⟩
  rcases hboard with rfl | ⟨b, b', hb, hrestore, rfl⟩
  · exact hw.board
  · have hconfigured := hw.board.configured
    rw [hb] at hconfigured
    refine ⟨hconfigured, fun b'' hb'' => ?_⟩
    cases hb''
    exact (hw.board.fits b hb).restore hback hrestore

theorem sound_ofConfig {detected : Backend} (hw : ofConfig c detected = .ok w) : w.Sound c := by
  obtain ⟨controller, board, hvalid, -, hboard, rfl⟩ := ofConfig_cases hw
  refine ⟨owned_ofConfig hw, hvalid, fun id a states h => ?_, boardFits_of_config hboard⟩
  have := h.contains
  cases this

end Society

/-- **As long as nothing is loaded that was not saved, every agent is sound** and its states fit. -/
theorem Genuine.sound {c : Config} {w : Society} (hw : Genuine c w) : w.Sound c := by
  induction hw with
  | start _ h => exact Society.sound_ofConfig h
  | next r hr _ ih => exact ih.serve hr
  | load _ _ hs ih ih' => exact ih.load (ih'.save hs)
  | restoreGossip _ _ hr ih ih' => exact ih.restoreGossip ih' hr

end NpcMind
