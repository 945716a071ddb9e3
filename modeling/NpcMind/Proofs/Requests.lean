import NpcMind.Society
import NpcMind.Proofs.Locality

/-!
# Serving requests

A society is used by asking one thing of it after the other. `Reachable` collects the societies that any
sequence of requests leads to, `Genuine` those that are reached with nothing loaded but what societies
saved. An answer may be a failure; what is left of the society then is asked the next thing all the same.
-/

namespace NpcMind

/-- What can be asked of a society. -/
inductive Request where
  | spawn (p : Profile)
  | spawnWith (p : Profile) (binding : Binding)
  | despawn (id : Uuid)
  | tick (id : Uuid) (s : Senses) (e : Encounter) (dt : Float32) (taskId : Uuid)
  | update (frames : List Frame) (dt : Float32)
  | reset (id : Uuid)
  | reinforce (id : Uuid) (reward : Float32)
  | shiftRelationship (id : Uuid) (change : Float32)
  | save (id : Uuid)
  | load (s : Snapshot)
  | clearGossip
  | restoreGossip (r : MemoryRecord)

/-- What a society answers. -/
inductive Answer where
  | done
  | named (id : Uuid)
  | decided (d : Decision)
  | reported (r : PenaltyReport Float32)
  | level (x : Float32)
  | saved (s : Snapshot)

/-- The request brings something that was saved. -/
def Request.bringsRecord : Request → Bool
  | .load _ => true
  | .restoreGossip _ => true
  | _ => false

namespace Society

/-- An operation's outcome as an answer. -/
def answer {α : Type} (f : α → Answer) (r : Outcome α × Society) : Outcome Answer × Society :=
  (r.1.map f, r.2)

/-- The answer to a request, and the society after it. -/
def serve (w : Society) : Request → Outcome Answer × Society
  | .spawn p => answer .named (w.spawn p)
  | .spawnWith p binding => answer .named (w.spawnWith p binding)
  | .despawn id => answer (fun _ => .done) (w.despawn id)
  | .tick id s e dt taskId => answer .decided (w.tick id s e dt taskId)
  | .update frames dt => answer (fun _ => .done) (w.update frames dt)
  | .reset id => answer (fun _ => .done) (w.reset id)
  | .reinforce id reward => answer .reported (w.reinforce id reward)
  | .shiftRelationship id change => answer .level (w.shiftRelationship id change)
  | .save id => answer .saved (w.save id, w)
  | .load s => answer .named (w.load s)
  | .clearGossip => (.ok .done, w.clearGossip)
  | .restoreGossip r =>
    match w.restoreGossip r with
    | .ok w => (.ok .done, w)
    | .error e => (.error e, w)

end Society

/-- A society of that configuration after some requests, on whatever machine. -/
inductive Reachable (c : Config) : Society → Prop
  | start {w : Society} (detected : Backend) : Society.ofConfig c detected = .ok w → Reachable c w
  | next {w : Society} (r : Request) : Reachable c w → Reachable c (w.serve r).2

/-- A society of that configuration after some requests, with nothing loaded but what societies saved. -/
inductive Genuine : Config → Society → Prop
  | start {c : Config} {w : Society} (detected : Backend) : Society.ofConfig c detected = .ok w → Genuine c w
  | next {c : Config} {w : Society} (r : Request) : r.bringsRecord = false → Genuine c w →
      Genuine c (w.serve r).2
  | load {c c' : Config} {w w' : Society} {id : Uuid} {s : Snapshot} : Genuine c w → Genuine c' w' →
      w'.save id = .ok s → Genuine c (w.load s).2
  | restoreGossip {c c' : Config} {w w' : Society} {r : MemoryRecord} : Genuine c w → Genuine c' w' →
      w'.gossipRecord = .ok (some r) → Genuine c (w.serve (.restoreGossip r)).2

theorem Genuine.reachable {c : Config} {w : Society} (hw : Genuine c w) : Reachable c w := by
  induction hw with
  | start detected h => exact .start detected h
  | next r _ _ ih => exact .next r ih
  | @load _ _ _ _ _ s _ _ _ ih _ => exact .next (.load s) ih
  | @restoreGossip _ _ _ _ r _ _ _ ih _ => exact .next (.restoreGossip r) ih

namespace Society

/-! ### Operations on one agent -/

/-- An operation on one agent and the states of its controller. -/
def act {β : Type} (w : Society) (id : Uuid) (f : Agent → StatePools → Outcome β × Agent × StatePools) :
    Outcome β × Society :=
  match w.locate id with
  | .error e => (.error e, w)
  | .ok (h, a) =>
    match f a w.pools with
    | (out, a, pools) => (out, { w with pools, agents := w.agents.set h a })

variable {w : Society} {id : Uuid} {h : Handle} {a : Agent}

theorem locate_ok (hl : w.index.lookup id = some h) (ha : w.agents.get? h = some a) :
    w.locate id = .ok (h, a) := by
  simp only [locate, handle, hl, bind, Except.bind, SlotPool.get_eq_ok.mpr ha]
  rfl

theorem handle_cases (w : Society) (id : Uuid) :
    (w.index.lookup id = none ∧ w.handle id = .error (.unknownAgent id)) ∨
      ∃ h, w.index.lookup id = some h ∧ w.handle id = .ok h := by
  unfold handle
  cases w.index.lookup id with
  | none => exact .inl ⟨rfl, rfl⟩
  | some h => exact .inr ⟨h, rfl, rfl⟩

theorem update_cases (w : Society) (frames : List Frame) (dt : Float32) :
    (∀ f ∈ frames, w.contains f.id = true) ∧ w.update frames dt = w.tickAll dt frames ∨
      ∃ f ∈ frames, w.contains f.id = false ∧ w.update frames dt = (.error (.unknownAgent f.id), w) := by
  let check (f : Frame) : Outcome Unit := do let _ ← w.handle f.id
  have hcheck : (∀ f ∈ frames, w.contains f.id = true) ∧ frames.forM check = .ok () ∨
      ∃ f ∈ frames, w.contains f.id = false ∧ frames.forM check = .error (.unknownAgent f.id) := by
    induction frames with
    | nil => exact .inl ⟨fun f hf => by simp at hf, rfl⟩
    | cons f rest ih =>
      have hcons : (f :: rest).forM check = check f >>= fun _ => rest.forM check := rfl
      rcases w.handle_cases f.id with ⟨hl, hh⟩ | ⟨h, hl, hh⟩
      · have hf : check f = .error (.unknownAgent f.id) := by simp only [check, hh]; rfl
        exact .inr ⟨f, List.mem_cons_self, by simp [contains, hl], by rw [hcons, hf]; rfl⟩
      · have hf : check f = .ok () := by simp only [check, hh]; rfl
        have hrest : (f :: rest).forM check = rest.forM check := by rw [hcons, hf]; rfl
        rw [hrest]
        rcases ih with ⟨hall, hok⟩ | ⟨g, hg, hmissing, herr⟩
        · refine .inl ⟨fun g hg => ?_, hok⟩
          rcases List.mem_cons.mp hg with rfl | hg
          · simp [contains, hl]
          · exact hall g hg
        · exact .inr ⟨g, List.mem_cons_of_mem f hg, hmissing, herr⟩
  rcases hcheck with ⟨hall, hok⟩ | ⟨f, hf, hmissing, herr⟩
  · exact .inl ⟨hall, by simp only [update, hok, check]⟩
  · exact .inr ⟨f, hf, hmissing, by simp only [update, herr, check]⟩

theorem get?_of_locate (hl : w.locate id = .ok (h, a)) : w.agents.get? h = some a := by
  obtain ⟨k, -, hl⟩ := Outcome.ok_of_bind hl
  obtain ⟨b, hb, hl⟩ := Outcome.ok_of_bind hl
  cases hl
  exact SlotPool.get_eq_ok.mp hb

theorem tell_snd (board : Option Board) (a : Agent) : (tell board a).2 = { a with gossip := none } := by
  unfold tell
  split
  · split <;> rfl
  · rfl

/-- The second board is the first one, or it was told something. -/
inductive Told (board : Option Board) : Option Board → Prop
  | nothing : Told board board
  | tell (a : Agent) : Told board (Society.tell board a).1

theorem Told.eq_none {board : Option Board} (h : Told none board) : board = none := by
  cases h with
  | nothing => rfl
  | tell a =>
    unfold Society.tell
    split
    · next h _ => cases h
    · rfl

/-- A tick is an operation on one agent, but for what is told. -/
theorem tick_eq_act (w : Society) (id : Uuid) (s : Senses) (e : Encounter) (dt : Float32) (taskId : Uuid) :
    ∃ board, w.tick id s e dt taskId = ((w.act id (Agent.tickAct (w.surroundings taskId) s e dt)).1,
        { (w.act id (Agent.tickAct (w.surroundings taskId) s e dt)).2 with board }) ∧ Told w.board board := by
  unfold tick act Agent.tickAct
  cases hl : w.locate id with
  | error err => exact ⟨w.board, rfl, .nothing⟩
  | ok r =>
    obtain ⟨h, a⟩ := r
    dsimp only
    cases a.tick (w.surroundings taskId) w.pools s e dt with
    | error err => exact ⟨w.board, by simp only [SlotPool.set_get? (get?_of_locate hl)], .nothing⟩
    | ok r => exact ⟨(tell w.board r.1).1, by simp only [tell_snd], .tell r.1⟩

theorem reset_eq_act (w : Society) (id : Uuid) : w.reset id = w.act id Agent.resetAct := by
  unfold reset act Agent.resetAct
  cases hl : w.locate id with
  | error e => rfl
  | ok r =>
    obtain ⟨h, a⟩ := r
    dsimp only
    rcases a.reset w.pools with ⟨_ | b, pools⟩
    · simp only [SlotPool.set_get? (get?_of_locate hl)]
    · rfl

theorem reinforce_eq_act (w : Society) (id : Uuid) (reward : Float32) :
    w.reinforce id reward = w.act id (Agent.reinforceAct w.config reward) := by
  unfold reinforce act Agent.reinforceAct
  cases hl : w.locate id with
  | error e => rfl
  | ok r =>
    obtain ⟨h, a⟩ := r
    dsimp only
    cases a.reinforce w.pools w.config reward with
    | error e => simp only [SlotPool.set_get? (get?_of_locate hl)]
    | ok r => rfl

theorem shiftRelationship_eq_act (w : Society) (id : Uuid) (change : Float32) :
    w.shiftRelationship id change = w.act id (Agent.shiftAct change) := by
  unfold shiftRelationship act Agent.shiftAct
  cases w.locate id with
  | error e => rfl
  | ok r => rfl

/-- The board is all that a record of it can change. -/
theorem serve_restoreGossip (w : Society) (r : MemoryRecord) :
    ∃ board, (w.serve (.restoreGossip r)).2 = { w with board } ∧
      (board = w.board ∨ ∃ b b', w.board = some b ∧ b.restore r = .ok b' ∧ board = some b') := by
  simp only [Society.serve]
  cases hr : w.restoreGossip r with
  | error e => exact ⟨w.board, rfl, .inl rfl⟩
  | ok w' =>
    unfold Society.restoreGossip at hr
    split at hr
    · cases hr
    · next b hb =>
      obtain ⟨b', hb', hr⟩ := Outcome.ok_of_bind hr
      cases hr
      exact ⟨some b', rfl, .inr ⟨b, b', hb, hb', rfl⟩⟩

theorem restore_eq_act (w : Society) (id : Uuid) (s : Snapshot) :
    w.restore id s = w.act id fun a p => a.restore s p := rfl

end Society

end NpcMind
