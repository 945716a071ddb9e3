import NpcMind.Proofs.Ownership

/-!
# Agents do not get in each other's way

All agents keep the states of their controllers in the same pools. Since no two of them hold the same
slot, what is done to one agent can be done before or after what is done to another: with the same
results, and with the same society in the end. Only a gossip board lets agents hear of each other.
-/

namespace NpcMind

open StatePools Outcome

/-- The agent that a request is about, if it neither adds nor removes nor only looks at it. -/
def Request.actor? : Request → Option Uuid
  | .tick id _ _ _ _ => some id
  | .reset id => some id
  | .reinforce id _ => some id
  | .shiftRelationship id _ => some id
  | _ => none

namespace Agent

/-- The same operation with its result shown in another way. -/
theorem IsLocal.map {β γ : Type} {act : Agent → StatePools → Outcome β × Agent × StatePools}
    (hact : IsLocal act) (f : β → γ) : IsLocal fun a p => ((act a p).1.map f, (act a p).2) := by
  intro a p p' states hv hv'
  obtain ⟨out, b, next, hkeep, hlen, h, h'⟩ := hact a p p' states hv hv'
  exact ⟨out.map f, b, next, hkeep, hlen, by simp only [h], by simp only [h']⟩

end Agent

namespace Society

variable {c : Config} {w : Society} {id id' : Uuid} {β γ : Type}
  {f : Agent → StatePools → Outcome β × Agent × StatePools}
  {g : Agent → StatePools → Outcome γ × Agent × StatePools}

/-! ### Two operations -/

theorem act_unknown (hid : w.index.lookup id = none) :
    w.act id f = (.error (.unknownAgent id), w) := by
  simp only [act, locate, handle, hid, bind, Except.bind]

@[simp] theorem act_index : (w.act id f).2.index = w.index := by
  unfold act
  split <;> rfl

@[simp] theorem act_config : (w.act id f).2.config = w.config := by
  unfold act
  split <;> rfl

@[simp] theorem act_backend : (w.act id f).2.backend = w.backend := by
  unfold act
  split <;> rfl

@[simp] theorem act_board : (w.act id f).2.board = w.board := by
  unfold act
  split <;> rfl

/-- **Operations on two agents commute.** -/
theorem act_comm (hw : w.Owned c) (hne : id ≠ id') (hf : Agent.IsLocal f) (hg : Agent.IsLocal g) :
    ((w.act id' g).2.act id f).1 = (w.act id f).1 ∧ ((w.act id f).2.act id' g).1 = (w.act id' g).1 ∧
      ((w.act id f).2.act id' g).2 = ((w.act id' g).2.act id f).2 := by
  rcases handle_cases w id with ⟨hid, -⟩ | ⟨h, hid, -⟩
  · have hid₂ : (w.act id' g).2.index.lookup id = none := by rw [act_index, hid]
    rw [act_unknown hid, act_unknown hid₂]
    exact ⟨rfl, rfl, rfl⟩
  rcases handle_cases w id' with ⟨hid', -⟩ | ⟨k, hid', -⟩
  · have hid₂ : (w.act id f).2.index.lookup id' = none := by rw [act_index, hid']
    rw [act_unknown hid', act_unknown hid₂]
    exact ⟨rfl, rfl, rfl⟩
  obtain ⟨a, states, hla, ha, rfl, hva⟩ := hw.locate hid
  obtain ⟨b, states', hlb, hb, rfl, hvb⟩ := hw.locate hid'
  have hhk : h ≠ k := by
    rintro rfl
    rw [ha] at hb
    cases hb
    exact hne rfl
  have hapart : Apart a.handles b.handles := hw.apart h a k b ha hb hhk
  -- What each of them does alone, and then after the other.
  obtain ⟨outb, b₁, nextb, -, -, hgb, -⟩ := hg b w.pools w.pools states' hvb hvb
  obtain ⟨outa, a₁, nexta, -, -, hfa, hfa'⟩ := hf a w.pools (w.pools.put b.handles nextb) states hva
    (hva.putAll_apart hapart.symm)
  obtain ⟨outb', b₁', nextb', -, -, hgb₂, hgb'⟩ := hg b w.pools (w.pools.put a.handles nexta) states' hvb
    (hvb.putAll_apart hapart)
  rw [hgb] at hgb₂
  obtain ⟨rfl, hrest⟩ := Prod.mk.inj hgb₂
  obtain ⟨rfl, hput⟩ := Prod.mk.inj hrest
  have hacta : w.act a.id f =
      (outa, { w with pools := w.pools.put a.handles nexta, agents := w.agents.set h a₁ }) := by
    simp only [act, hla, hfa]
  have hactb : w.act b.id g =
      (outb, { w with pools := w.pools.put b.handles nextb, agents := w.agents.set k b₁ }) := by
    simp only [act, hlb, hgb]
  rw [hacta, hactb]
  have hla₂ : ({ w with pools := w.pools.put b.handles nextb, agents := w.agents.set k b₁ } : Society).locate
      a.id = .ok (h, a) := locate_ok hid ((SlotPool.get?_set_of_ne hhk).trans ha)
  have hlb₂ : ({ w with pools := w.pools.put a.handles nexta, agents := w.agents.set h a₁ } : Society).locate
      b.id = .ok (k, b) := locate_ok hid' ((SlotPool.get?_set_of_ne hhk.symm).trans hb)
  simp only [act, hla₂, hlb₂, hfa', hgb']
  refine ⟨trivial, trivial, ?_⟩
  rw [put_comm hapart, ← hput, SlotPool.set_comm hhk]

/-! ### Without a board -/

theorem tick_eq_act_of_boardless (hb : w.board = none) (id : Uuid) (s : Senses) (e : Encounter)
    (dt : Float32) (taskId : Uuid) :
    w.tick id s e dt taskId = w.act id (Agent.tickAct (w.surroundings taskId) s e dt) := by
  obtain ⟨board, htick, htold⟩ := tick_eq_act w id s e dt taskId
  rw [hb] at htold
  have hsame : (w.act id (Agent.tickAct (w.surroundings taskId) s e dt)).2.board = board := by
    rw [act_board, hb, htold.eq_none]
  rw [htick, ← hsame]

theorem surroundings_congr {w' : Society} (hc : w'.config = w.config) (hm : w'.backend = w.backend)
    (hb : w'.board = w.board) (taskId : Uuid) : w'.surroundings taskId = w.surroundings taskId := by
  simp only [surroundings, hc, hm, hb]

/-- Without a board, a request about one agent is an operation on it, the same one in every society of the
configuration and the backend. -/
theorem serve_eq_act (hb : w.board = none) {r : Request} (hr : r.actor? = some id) :
    ∃ f : Agent → StatePools → Outcome Answer × Agent × StatePools, Agent.IsLocal f ∧
      ∀ w' : Society, w'.config = w.config → w'.backend = w.backend → w'.board = none →
        w'.serve r = w'.act id f := by
  have hact {δ : Type} (w' : Society) (f : Agent → StatePools → Outcome δ × Agent × StatePools)
      (show' : δ → Answer) : answer show' (w'.act id f) =
        w'.act id fun a p => ((f a p).1.map show', (f a p).2) := by
    unfold answer act
    cases w'.locate id <;> rfl
  cases r with
  | tick id s e dt taskId =>
    cases hr
    refine ⟨_, (Agent.isLocal_tickAct (w.surroundings taskId) s e dt).map .decided, fun w' hc' hm' hb' => ?_⟩
    rw [serve, tick_eq_act_of_boardless hb', surroundings_congr hc' hm' (hb'.trans hb.symm), hact]
  | reset id =>
    cases hr
    exact ⟨_, Agent.isLocal_resetAct.map _, fun w' _ _ _ => by rw [serve, reset_eq_act, hact]⟩
  | reinforce id reward =>
    cases hr
    refine ⟨_, (Agent.isLocal_reinforceAct w.config reward).map .reported, fun w' hc' _ _ => ?_⟩
    rw [serve, reinforce_eq_act, hc', hact]
  | shiftRelationship id change =>
    cases hr
    refine ⟨_, (Agent.isLocal_shiftAct change).map .level, fun w' _ _ _ => ?_⟩
    rw [serve, shiftRelationship_eq_act, hact]
  | _ => cases hr

theorem serve_comm (hw : w.Owned c) (hb : w.board = none) (hne : id ≠ id') {x y : Request}
    (hx : x.actor? = some id) (hy : y.actor? = some id') :
    ((w.serve y).2.serve x).1 = (w.serve x).1 ∧ ((w.serve x).2.serve y).1 = (w.serve y).1 ∧
      ((w.serve x).2.serve y).2 = ((w.serve y).2.serve x).2 := by
  obtain ⟨f, hf, hservex⟩ := serve_eq_act hb hx
  obtain ⟨g, hg, hservey⟩ := serve_eq_act hb hy
  have hx₂ := hservex (w.act id' g).2 act_config act_backend (act_board.trans hb)
  have hy₂ := hservey (w.act id f).2 act_config act_backend (act_board.trans hb)
  rw [hservex w rfl rfl hb, hservey w rfl rfl hb, hx₂, hy₂]
  exact act_comm hw hne hf hg

/-! ### The backend and the board -/

theorem spawnWith_backend (w : Society) (p : Profile) (binding : Binding) :
    (w.spawnWith p binding).2.backend = w.backend := by
  unfold spawnWith
  split
  · rfl
  · split
    · rfl
    · split
      · rfl
      · split <;> rfl

theorem despawn_backend (w : Society) (id : Uuid) : (w.despawn id).2.backend = w.backend := by
  unfold despawn
  split
  · rfl
  · dsimp only
    split <;> rfl

theorem load_backend (w : Society) (s : Snapshot) : (w.load s).2.backend = w.backend := by
  unfold load
  split
  · rfl
  · have hspawn := w.spawnWith_backend s.profile s.binding
    generalize w.spawnWith s.profile s.binding = spawned at hspawn ⊢
    obtain ⟨_ | id, w₁⟩ := spawned
    · exact hspawn
    · have hrestore : (w₁.restore id s).2.backend = w₁.backend := by rw [restore_eq_act, act_backend]
      dsimp only
      generalize w₁.restore id s = restored at hrestore ⊢
      obtain ⟨_ | _, w₂⟩ := restored
      · have hdespawn := w₂.despawn_backend id
        dsimp only
        generalize w₂.despawn id = despawned at hdespawn ⊢
        obtain ⟨_ | _, w₃⟩ := despawned <;> exact hdespawn.trans (hrestore.trans hspawn)
      · exact hrestore.trans hspawn

theorem tick_backend (w : Society) (id : Uuid) (s : Senses) (e : Encounter) (dt : Float32) (taskId : Uuid) :
    (w.tick id s e dt taskId).2.backend = w.backend := by
  obtain ⟨board, heq, -⟩ := tick_eq_act w id s e dt taskId
  rw [heq]
  exact act_backend

theorem tickAll_backend (w : Society) (dt : Float32) (frames : List Frame) :
    (w.tickAll dt frames).2.backend = w.backend := by
  induction frames generalizing w with
  | nil => rfl
  | cons f rest ih =>
    have htick := w.tick_backend f.id f.senses f.encounter dt f.taskId
    unfold tickAll
    generalize w.tick f.id f.senses f.encounter dt f.taskId = r at htick ⊢
    obtain ⟨_ | _, w₁⟩ := r
    · exact htick
    · exact (ih w₁).trans htick

/-- The backend is settled when a society starts. -/
theorem serve_backend (w : Society) (r : Request) : (w.serve r).2.backend = w.backend := by
  cases r with
  | spawn p => exact w.spawnWith_backend p _
  | spawnWith p binding => exact w.spawnWith_backend p binding
  | despawn id => exact w.despawn_backend id
  | load s => exact w.load_backend s
  | tick id s e dt taskId => exact w.tick_backend id s e dt taskId
  | update frames dt =>
    simp only [serve, answer, update]
    split
    · rfl
    · exact w.tickAll_backend dt frames
  | reset id => simp only [serve, answer, reset_eq_act, act_backend]
  | reinforce id reward => simp only [serve, answer, reinforce_eq_act, act_backend]
  | shiftRelationship id change => simp only [serve, answer, shiftRelationship_eq_act, act_backend]
  | save id => rfl
  | clearGossip => rfl
  | restoreGossip record =>
    obtain ⟨board, heq, -⟩ := serve_restoreGossip w record
    rw [heq]

theorem spawnWith_board (w : Society) (p : Profile) (binding : Binding) :
    (w.spawnWith p binding).2.board = w.board := by
  unfold spawnWith
  split
  · rfl
  · split
    · rfl
    · split
      · rfl
      · split <;> rfl

theorem despawn_board (w : Society) (id : Uuid) : (w.despawn id).2.board = w.board := by
  unfold despawn
  split
  · rfl
  · dsimp only
    split <;> rfl

theorem load_board (w : Society) (s : Snapshot) : (w.load s).2.board = w.board := by
  unfold load
  split
  · rfl
  · have hspawn := w.spawnWith_board s.profile s.binding
    generalize w.spawnWith s.profile s.binding = spawned at hspawn ⊢
    obtain ⟨_ | id, w₁⟩ := spawned
    · exact hspawn
    · have hrestore : (w₁.restore id s).2.board = w₁.board := by rw [restore_eq_act, act_board]
      dsimp only
      generalize w₁.restore id s = restored at hrestore ⊢
      obtain ⟨_ | _, w₂⟩ := restored
      · have hdespawn := w₂.despawn_board id
        dsimp only
        generalize w₂.despawn id = despawned at hdespawn ⊢
        obtain ⟨_ | _, w₃⟩ := despawned <;> exact hdespawn.trans (hrestore.trans hspawn)
      · exact hrestore.trans hspawn

theorem tickAll_boardless (hb : w.board = none) (dt : Float32) (frames : List Frame) :
    (w.tickAll dt frames).2.board = none := by
  induction frames generalizing w with
  | nil => exact hb
  | cons f rest ih =>
    have htick : (w.tick f.id f.senses f.encounter dt f.taskId).2.board = none := by
      rw [tick_eq_act_of_boardless hb, act_board, hb]
    unfold tickAll
    generalize w.tick f.id f.senses f.encounter dt f.taskId = r at htick ⊢
    obtain ⟨_ | _, w₁⟩ := r
    · exact htick
    · exact ih htick

theorem serve_actor_boardless (hb : w.board = none) {r : Request} (hr : r.actor? = some id) :
    (w.serve r).2.board = none := by
  obtain ⟨f, -, hserve⟩ := serve_eq_act hb hr
  rw [hserve w rfl rfl hb, act_board, hb]

theorem serve_boardless (hb : w.board = none) (r : Request) : (w.serve r).2.board = none := by
  cases r with
  | spawn p => exact (w.spawnWith_board p _).trans hb
  | spawnWith p binding => exact (w.spawnWith_board p binding).trans hb
  | despawn id => exact (w.despawn_board id).trans hb
  | load s => exact (w.load_board s).trans hb
  | update frames dt =>
    simp only [serve, answer, update]
    split
    · exact hb
    · exact tickAll_boardless hb dt frames
  | save id => exact hb
  | clearGossip => simp only [serve, clearGossip, hb, Option.map_none]
  | restoreGossip record => simp only [serve, restoreGossip, hb, throw, throwThe, MonadExceptOf.throw]
  | tick | reset | reinforce | shiftRelationship => exact serve_actor_boardless hb rfl

theorem boardless_ofConfig (hc : c.limits.gossipSlots = 0) {detected : Backend} (hw : ofConfig c detected = .ok w) :
    w.board = none := by
  obtain ⟨_, -, hw⟩ := ok_of_bind hw
  obtain ⟨_, -, hw⟩ := ok_of_bind hw
  obtain ⟨_, -, hw⟩ := ok_of_bind hw
  obtain ⟨board, hboard, hw⟩ := ok_of_bind hw
  cases hw
  simp only [boardOf, hc, gt_iff_lt, Nat.lt_irrefl, if_false] at hboard
  cases hboard
  rfl

/-! ### Batches in another order -/

/-- The two runs both broke off, or they ended alike. -/
def SameEnd (r r' : Outcome Unit × Society) : Prop :=
  (∃ cause cause', r.1 = .error (.fault cause) ∧ r'.1 = .error (.fault cause')) ∨ r = r'

theorem SameEnd.trans {r₁ r₂ r₃ : Outcome Unit × Society} (h₁₂ : SameEnd r₁ r₂) (h₂₃ : SameEnd r₂ r₃) :
    SameEnd r₁ r₃ := by
  rcases h₁₂ with ⟨cause, cause₂, h₁, h₂⟩ | rfl
  · rcases h₂₃ with ⟨_, cause₃, -, h₃⟩ | rfl
    · exact .inl ⟨cause, cause₃, h₁, h₃⟩
    · exact .inl ⟨cause, cause₂, h₁, h₂⟩
  · exact h₂₃

/-- A tick of an agent that is there only ever breaks off. -/
theorem tick_cases (hw : w.Owned c) (hid : w.contains id = true) (s : Senses) (e : Encounter)
    (dt : Float32) (taskId : Uuid) : (∃ cause, (w.tick id s e dt taskId).1 = .error (.fault cause)) ∨
      ∃ d, (w.tick id s e dt taskId).1 = .ok d := by
  obtain ⟨h, hl⟩ := Option.isSome_iff_exists.mp hid
  obtain ⟨a, states, hloc, -⟩ := hw.locate hl
  unfold tick
  simp only [hloc]
  cases ht : a.tick (w.surroundings taskId) w.pools s e dt with
  | error err =>
    obtain ⟨cause, rfl⟩ := SlotSafe.tick_failsBy a (w.surroundings taskId) w.pools s e dt err ht
    exact .inl ⟨cause, rfl⟩
  | ok r => exact .inr ⟨_, rfl⟩

theorem tick_index (w : Society) (id : Uuid) (s : Senses) (e : Encounter) (dt : Float32) (taskId : Uuid) :
    (w.tick id s e dt taskId).2.index = w.index := by
  obtain ⟨board, heq, -⟩ := tick_eq_act w id s e dt taskId
  rw [heq]
  exact act_index

/-- A tick adds and removes nobody. -/
theorem tick_contains (w : Society) (id id' : Uuid) (s : Senses) (e : Encounter) (dt : Float32) (taskId : Uuid) :
    (w.tick id s e dt taskId).2.contains id' = w.contains id' := by
  rw [contains, tick_index, contains]

theorem tickAll_cons_ok {f : Frame} {dt : Float32} {d : Decision}
    (h : (w.tick f.id f.senses f.encounter dt f.taskId).1 = .ok d) (rest : List Frame) :
    w.tickAll dt (f :: rest) = (w.tick f.id f.senses f.encounter dt f.taskId).2.tickAll dt rest := by
  rw [tickAll]
  generalize w.tick f.id f.senses f.encounter dt f.taskId = r at h ⊢
  obtain ⟨out, w₁⟩ := r
  cases h
  rfl

theorem tickAll_cons_error {f : Frame} {dt : Float32} {err : Error}
    (h : (w.tick f.id f.senses f.encounter dt f.taskId).1 = .error err) (rest : List Frame) :
    (w.tickAll dt (f :: rest)).1 = .error err := by
  rw [tickAll]
  generalize w.tick f.id f.senses f.encounter dt f.taskId = r at h ⊢
  obtain ⟨out, w₁⟩ := r
  cases h
  rfl

/-- Two ticks, as `serve_comm` has them. -/
theorem tick_comm (hw : w.Owned c) (hb : w.board = none) (hne : id ≠ id') (s s' : Senses)
    (e e' : Encounter) (dt : Float32) (taskId taskId' : Uuid) :
    ((w.tick id' s' e' dt taskId').2.tick id s e dt taskId).1 = (w.tick id s e dt taskId).1 ∧
      ((w.tick id s e dt taskId).2.tick id' s' e' dt taskId').1 = (w.tick id' s' e' dt taskId').1 ∧
      ((w.tick id s e dt taskId).2.tick id' s' e' dt taskId').2 =
        ((w.tick id' s' e' dt taskId').2.tick id s e dt taskId).2 := by
  have hs (w' : Society) (hc' : w'.config = w.config) (hm' : w'.backend = w.backend) (hb' : w'.board = none)
      (taskId : Uuid) : w'.surroundings taskId = w.surroundings taskId :=
    surroundings_congr hc' hm' (hb'.trans hb.symm) taskId
  simp only [tick_eq_act_of_boardless, hb, act_board, hs, act_config, act_backend]
  exact act_comm hw hne (Agent.isLocal_tickAct _ s e dt) (Agent.isLocal_tickAct _ s' e' dt)

/-- The first two ticks of a batch can change places. -/
theorem tickAll_swap (hw : w.Owned c) (hb : w.board = none) {f g : Frame} (hne : f.id ≠ g.id)
    (hf : w.contains f.id = true) (hg : w.contains g.id = true) (dt : Float32) (rest : List Frame) :
    SameEnd (w.tickAll dt (f :: g :: rest)) (w.tickAll dt (g :: f :: rest)) := by
  obtain ⟨hoff, hofg, hend⟩ := tick_comm hw hb hne f.senses g.senses f.encounter g.encounter dt f.taskId
    g.taskId
  rcases tick_cases hw hf f.senses f.encounter dt f.taskId with ⟨cause, hfault⟩ | ⟨d, hd⟩
  · -- The second order breaks off at one of the two ticks as well.
    refine .inl ?_
    rcases tick_cases hw hg g.senses g.encounter dt g.taskId with ⟨cause', hfault'⟩ | ⟨d', hd'⟩
    · exact ⟨cause, cause', tickAll_cons_error hfault _, tickAll_cons_error hfault' _⟩
    · refine ⟨cause, cause, tickAll_cons_error hfault _, ?_⟩
      rw [tickAll_cons_ok hd']
      exact tickAll_cons_error (hoff.trans hfault) _
  · rw [tickAll_cons_ok hd]
    rcases tick_cases hw hg g.senses g.encounter dt g.taskId with ⟨cause', hfault'⟩ | ⟨d', hd'⟩
    · exact .inl ⟨cause', cause', tickAll_cons_error (hofg.trans hfault') _, tickAll_cons_error hfault' _⟩
    · rw [tickAll_cons_ok hd', tickAll_cons_ok (hofg.trans hd'), tickAll_cons_ok (hoff.trans hd), hend]
      exact .inr rfl

theorem tickAll_perm {frames frames' : List Frame} (hp : frames.Perm frames') (hw : w.Owned c)
    (hb : w.board = none) (hids : (frames.map Frame.id).Nodup)
    (hall : ∀ f ∈ frames, w.contains f.id = true) (dt : Float32) :
    SameEnd (w.tickAll dt frames) (w.tickAll dt frames') := by
  induction hp generalizing w with
  | nil => exact .inr rfl
  | @cons f rest rest' _ ih =>
    rcases tick_cases hw (hall f List.mem_cons_self) f.senses f.encounter dt f.taskId with ⟨cause, hfault⟩ | ⟨d, hd⟩
    · exact .inl ⟨cause, cause, tickAll_cons_error hfault _, tickAll_cons_error hfault _⟩
    · rw [tickAll_cons_ok hd, tickAll_cons_ok hd]
      refine ih (hw.tick f.id f.senses f.encounter dt f.taskId).2 ?_ (List.nodup_cons.mp hids).2 fun g hg => ?_
      · rw [tick_eq_act_of_boardless hb, act_board, hb]
      · rw [tick_contains]
        exact hall g (List.mem_cons_of_mem f hg)
  | swap f g rest =>
    have hne : g.id ≠ f.id := fun h => (List.nodup_cons.mp hids).1 (by simp [h])
    exact tickAll_swap hw hb hne (hall g (by simp)) (hall f (by simp)) dt rest
  | @trans _ middle _ hp₁ _ ih₁ ih₂ =>
    refine (ih₁ hw hb hids hall).trans (ih₂ hw hb ((hp₁.map Frame.id).nodup_iff.mp hids) fun f hf => ?_)
    exact hall f (hp₁.mem_iff.mpr hf)

theorem update_perm {frames frames' : List Frame} (hp : frames.Perm frames') (hw : w.Owned c)
    (hb : w.board = none) (hids : (frames.map Frame.id).Nodup) (dt : Float32) :
    (∃ cause cause', (w.update frames dt).1 = .error (.fault cause) ∧
        (w.update frames' dt).1 = .error (.fault cause')) ∨
      ((w.update frames dt).1 = .ok () ↔ (w.update frames' dt).1 = .ok ()) ∧
        (w.update frames dt).2 = (w.update frames' dt).2 := by
  rcases w.update_cases frames dt with ⟨hall, hup⟩ | ⟨f, hf, hmissing, hup⟩
  · rcases w.update_cases frames' dt with ⟨-, hup'⟩ | ⟨f, hf, hmissing, -⟩
    · rw [hup, hup']
      rcases tickAll_perm hp hw hb hids hall dt with hfault | hsame
      · exact .inl hfault
      · rw [hsame]
        exact .inr ⟨Iff.rfl, rfl⟩
    · rw [hall f (hp.mem_iff.mpr hf)] at hmissing
      cases hmissing
  · rcases w.update_cases frames' dt with ⟨hall, -⟩ | ⟨f', -, -, hup'⟩
    · rw [hall f (hp.mem_iff.mp hf)] at hmissing
      cases hmissing
    · rw [hup, hup']
      exact .inr ⟨⟨(nomatch ·), (nomatch ·)⟩, rfl⟩

end Society

theorem Reachable.boardless {c : Config} {w : Society} (hw : Reachable c w)
    (hc : c.limits.gossipSlots = 0) : w.board = none := by
  induction hw with
  | start _ h => exact Society.boardless_ofConfig hc h
  | next r _ ih => exact Society.serve_boardless ih r

/-- **Agents are independent without a board.** In a reachable society `w` with `gossipSlots = 0`, requests `x` and
`y` of two different agents commute: either order gives the same two answers and the same society. For `frames` of
different agents and any permutation `frames'` of them, `w.update` succeeds on both or on neither and ends in the same
society, unless both break off with a fault. -/
theorem Reachable.independent {c : Config} {w : Society} (hw : Reachable c w)
    (hc : c.limits.gossipSlots = 0) :
    (∀ (a b : Uuid) (x y : Request), w.contains a = true → w.contains b = true → a ≠ b →
      x.actor? = some a → y.actor? = some b →
        ((w.serve y).2.serve x).1 = (w.serve x).1 ∧ ((w.serve x).2.serve y).1 = (w.serve y).1 ∧
          ((w.serve x).2.serve y).2 = ((w.serve y).2.serve x).2) ∧
    ∀ (frames frames' : List Frame) (dt : Float32), frames.Perm frames' → (frames.map Frame.id).Nodup →
      (∃ cause cause', (w.update frames dt).1 = .error (.fault cause) ∧
          (w.update frames' dt).1 = .error (.fault cause')) ∨
        ((w.update frames dt).1 = .ok () ↔ (w.update frames' dt).1 = .ok ()) ∧
          (w.update frames dt).2 = (w.update frames' dt).2 := by
  have hb := hw.boardless hc
  refine ⟨fun a b x y _ _ hne hx hy => Society.serve_comm hw.owned hb hne hx hy, ?_⟩
  exact fun frames frames' dt hp hids => Society.update_perm hp hw.owned hb hids dt

/-- Two agents of the default configuration: a tick of one and a reset of the other change places, and so
do the ticks of both. -/
theorem independent_two_agents : ∃ w, Reachable {} w ∧ w.contains ⟨1, 2⟩ = true ∧ w.contains ⟨3, 4⟩ = true ∧
    ((w.serve (.tick ⟨1, 2⟩ {} {} 0.5 ⟨5, 6⟩)).2.serve (.reset ⟨3, 4⟩)).2 =
      ((w.serve (.reset ⟨3, 4⟩)).2.serve (.tick ⟨1, 2⟩ {} {} 0.5 ⟨5, 6⟩)).2 ∧
    ∃ frames frames', frames = [⟨⟨1, 2⟩, {}, {}, ⟨5, 6⟩⟩, ⟨⟨3, 4⟩, {}, {}, ⟨7, 8⟩⟩] ∧
      frames' = [⟨⟨3, 4⟩, {}, {}, ⟨7, 8⟩⟩, ⟨⟨1, 2⟩, {}, {}, ⟨5, 6⟩⟩] ∧
      ((∃ cause cause', (w.update frames 0.5).1 = .error (.fault cause) ∧
          (w.update frames' 0.5).1 = .error (.fault cause')) ∨
        ((w.update frames 0.5).1 = .ok () ↔ (w.update frames' 0.5).1 = .ok ()) ∧
          (w.update frames 0.5).2 = (w.update frames' 0.5).2) := by
  obtain ⟨w, hw, ha, hb⟩ : ∃ w, Reachable {} w ∧ w.contains ⟨1, 2⟩ = true ∧ w.contains ⟨3, 4⟩ = true :=
    ⟨_, .next (.spawn ⟨⟨3, 4⟩, "Ash", .merchant, none⟩)
      (.next (.spawn ⟨⟨1, 2⟩, "Vex", .rogue, none⟩) (.start .scalar rfl)), rfl, rfl⟩
  obtain ⟨hpair, hbatch⟩ := Reachable.independent hw rfl
  refine ⟨w, hw, ha, hb, ?_, _, _, rfl, rfl, hbatch _ _ 0.5 (.swap _ _ _) (by decide)⟩
  exact (hpair ⟨1, 2⟩ ⟨3, 4⟩ (.tick ⟨1, 2⟩ {} {} 0.5 ⟨5, 6⟩) (.reset ⟨3, 4⟩) ha hb (by decide) rfl rfl).2.2

end NpcMind
