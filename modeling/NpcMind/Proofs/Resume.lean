import NpcMind.Proofs.Twins

/-!
# Saving, loading and going on

An agent that was saved goes on in a new society of the same configuration as if nothing had happened, if the
gossip board is saved and put back as well. This takes that memories have buffers for their contents: the
length of a row of a very wide memory goes past the largest word, and such a memory is not saved, or what is
saved of its agent is refused.
-/

namespace NpcMind

open StatePools Outcome

/-! ### Turns -/

/-- What may happen to an agent that goes on. -/
inductive Turn where
  | tick (s : Senses) (e : Encounter) (dt : Float32)
  | shiftRelationship (change : Float32)
  | reset

/-- The turn of the agent `id` as a request. A task that it stores in it gets the identity `taskId`. -/
def Turn.request (id taskId : Uuid) : Turn → Request
  | .tick s e dt => .tick id s e dt taskId
  | .shiftRelationship change => .shiftRelationship id change
  | .reset => .reset id

namespace Society

variable {c : Config} {w w' fresh : Society} {id : Uuid} {a : Agent} {states : List CellState} {learning : Prop}

/-- The answer to each turn of an agent, and what is saved of it afterwards but for the identities of tasks. Each
turn comes with the identity for a task. -/
def trace (id : Uuid) (w : Society) : List (Turn × Uuid) → List (Outcome Answer × Outcome Snapshot)
  | [] => []
  | (t, taskId) :: rest =>
    ((w.serve (t.request id taskId)).1, ((w.serve (t.request id taskId)).2.save id).map Snapshot.anonymous) ::
      trace id (w.serve (t.request id taskId)).2 rest

/-- Twins whose boards have the same content take every turn alike. -/
theorem Twins.turn (h : Twins learning id w w') (hc : w.config = w'.config) (hm : w.backend = w'.backend)
    (hboard : w.board.map Board.content = w'.board.map Board.content) (t : Turn) (taskId taskId' : Uuid) :
    (w.serve (t.request id taskId)).1 = (w'.serve (t.request id taskId')).1 ∧
      Twins learning id (w.serve (t.request id taskId)).2 (w'.serve (t.request id taskId')).2 ∧
      (w.serve (t.request id taskId)).2.board.map Board.content =
        (w'.serve (t.request id taskId')).2.board.map Board.content := by
  cases t with
  | tick s e dt =>
    have hmemory : w.board.map Board.memory = w'.board.map Board.memory := by
      have := congrArg (Option.map Prod.fst) hboard
      rwa [Option.map_map, Option.map_map] at this
    obtain ⟨hsame, htwins, hcontent⟩ := h.tick hc hm hmemory s e dt taskId taskId'
    exact ⟨congrArg (Except.map Answer.decided) hsame, htwins, hcontent hboard⟩
  | shiftRelationship change =>
    obtain ⟨hsame, htwins⟩ := h.shiftRelationship change
    refine ⟨congrArg (Except.map Answer.level) hsame, htwins, ?_⟩
    simp only [Turn.request, Society.serve, answer, shiftRelationship_eq_act, act_board, hboard]
  | reset =>
    obtain ⟨hsame, htwins⟩ := h.reset
    refine ⟨congrArg (Except.map fun _ => Answer.done) hsame, htwins, ?_⟩
    simp only [Turn.request, Society.serve, answer, reset_eq_act, act_board, hboard]

/-- Twins whose boards have the same content give the same answers in every run, and those that learn alike have the
same `trace`. -/
theorem Twins.trace (h : Twins learning id w w') (hw : w.Owned c) (hw' : w'.Owned c) (hm : w.backend = w'.backend)
    (hboard : w.board.map Board.content = w'.board.map Board.content) {turns turns' : List (Turn × Uuid)}
    (hturns : turns.map Prod.fst = turns'.map Prod.fst) :
    (w.trace id turns).map Prod.fst = (w'.trace id turns').map Prod.fst ∧
      (learning → w.trace id turns = w'.trace id turns') := by
  induction turns generalizing turns' w w' with
  | nil =>
    obtain rfl := List.map_eq_nil_iff.mp hturns.symm
    exact ⟨rfl, fun _ => rfl⟩
  | cons turn rest ih =>
    obtain ⟨t, taskId⟩ := turn
    obtain ⟨⟨t', taskId'⟩, rest', rfl, hfirst, hrest⟩ := List.map_eq_cons_iff.mp hturns.symm
    have hfirst : t' = t := hfirst
    subst hfirst
    obtain ⟨hsame, htwins, hboard⟩ := h.turn (hw.config.trans hw'.config.symm) hm hboard t' taskId taskId'
    have hm' : (w.serve (t'.request id taskId)).2.backend = (w'.serve (t'.request id taskId')).2.backend := by
      rw [serve_backend, serve_backend, hm]
    obtain ⟨hanswers, htrace⟩ := ih htwins (hw.serve _).2 (hw'.serve _).2 hm' hboard hrest.symm
    refine ⟨?_, fun hlearning => ?_⟩
    · simp only [Society.trace, List.map_cons, hsame, hanswers]
    · simp only [Society.trace, hsame, htwins.save hlearning, htrace hlearning]

/-! ### Loading what was saved -/

theorem contains_fresh {detected : Backend} (h : ofConfig c detected = .ok fresh) (id : Uuid) :
    fresh.contains id = false := by
  obtain ⟨_, _, -, -, -, rfl⟩ := ofConfig_cases h
  rfl

theorem isFull_fresh {detected : Backend} (h : ofConfig c detected = .ok fresh) : fresh.agents.isFull = false := by
  obtain ⟨_, _, hvalid, -, -, rfl⟩ := ofConfig_cases h
  have hroom := (Config.accepted_of_validate hvalid).maxAgents
  simpa [SlotPool.isFull, SlotPool.ofCapacity] using hroom

theorem Sound.save_eq (hw : w.Sound c) (ha : w.Holds id a states)
    (hbuffer : Memory.hasBuffer c.memory.slots c.memory.width = true) :
    w.save id = .ok (a.picture states a.memory.toRecord) := by
  rw [ha.save, (hw.whole id a states ha).sound.memory.record hbuffer]
  rfl

/-- **A new society takes in whoever was saved in another one of its configuration.** -/
theorem Sound.load_fresh (hw : w.Sound c) (ha : w.Holds id a states) {detected : Backend}
    (hfresh : ofConfig c detected = .ok fresh)
    (hbuffer : Memory.hasBuffer c.memory.slots c.memory.width = true) :
    ∃ loaded b next, fresh.load (a.picture states a.memory.toRecord) = (.ok id, loaded) ∧
      loaded.Holds id b next ∧ Agent.Alike a b ∧ b.binding = a.binding ∧ b.consolidator = a.consolidator ∧
      (w.controller.parameterCount ≤ UInt32.size → Agent.LearnsAlike a b) ∧
      List.Forall₂ CellState.Carries states next ∧ loaded.Owned c ∧ loaded.backend = fresh.backend ∧
      loaded.board = fresh.board := by
  have hwhole := hw.whole id a states ha
  have howned := owned_ofConfig hfresh
  have hshared := hw.owned.controller_eq howned
  have hid := ha.id_eq hw.owned
  have hcount := hwhole.sound.bound.countOf_le
  rw [← hshared] at hwhole
  -- The new agent, as it is before it is resumed.
  have hspawn : (fresh.spawnWith a.profile a.binding).1 = .ok id := by
    rw [← hid]
    exact howned.spawnWith_of_room (contains_fresh hfresh _) (isFull_fresh hfresh)
      hwhole.sound.bound.affordable
  obtain ⟨b, handles, left, hb, hass⟩ := howned.holds_spawned hspawn
  have hwhole₀ := howned.whole_spawned hspawn hass
  rw [hid] at hb
  have hnew : b.profile = a.profile ∧ b.binding = a.binding ∧
      b.controller = Agent.initialController b.binding fresh.controller := by
    obtain ⟨_, _, _, -, -, rfl⟩ := Agent.assemble_cases hass
    exact ⟨rfl, rfl, rfl⟩
  obtain ⟨b', next, hrestore, hlen, hhandles, halike, hbinding, hconsolidator, hlearn, hcarries⟩ :=
    hwhole.resume howned.shape hbuffer hwhole₀ hnew.1 hnew.2.1 hnew.2.2 hb.sees
  obtain ⟨hok, hheld⟩ := hb.act (f := fun a p => a.restore _ p) hrestore hlen hhandles
  rw [← restore_eq_act] at hok hheld
  have hrestored := (howned.spawnWith a.profile a.binding).act
    (Agent.isLocal_restore (a.picture states a.memory.toRecord)) id
  refine ⟨_, b', next, load_ok (hwhole.checkCompatible _) hspawn hok, hheld, halike, hbinding, hconsolidator,
    fun h => hlearn (hcount.trans h), hcarries, hrestored, ?_, ?_⟩
  · rw [restore_eq_act, act_backend]
    exact spawnWith_backend fresh a.profile a.binding
  · rw [restore_eq_act, act_board]
    exact spawnWith_board fresh a.profile a.binding

/-! ### The board -/

/-- What is saved of an agent is loaded only if its context is as long as its memory is wide. -/
theorem Sound.hasBuffer_of_load (hw : w.Sound c) (ha : w.Holds id a states) {detected : Backend}
    (hfresh : ofConfig c detected = .ok fresh)
    {s : Snapshot} (hs : w.save id = .ok s) (hload : (fresh.load s).1 = .ok id) :
    Memory.hasBuffer c.memory.slots c.memory.width = true := by
  have hsound := (hw.whole id a states ha).sound
  obtain ⟨memory, hm, rfl⟩ := ha.of_save hs
  have howned := owned_ofConfig hfresh
  obtain ⟨hspawn, hrestore, -⟩ := of_load hload
  obtain ⟨b, handles, left, hb, hass⟩ := howned.holds_spawned hspawn
  have hfits := (howned.whole_spawned hspawn hass).sound.memory
  have hlengths : b.checkLengths (a.picture states memory) = .ok () := by
    obtain ⟨k, hl⟩ := hb.locate
    exact Agent.checkLengths_of_restore (by simpa only [Society.restore, hl] using hrestore)
  have hcontext : a.longTermContext.size = b.memory.width := (Agent.checkLengths_ok.mp hlengths).2.2.2.2.2
  rw [hsound.context, Memory.width, hfits.config] at hcontext
  rcases hsound.memory.backed hm with hslots | hbuffer
  · -- Without slots the width alone decides.
    have hwidth : c.memory.width ≤ paddedStride c.memory.width := min_eq_left_iff.mp hcontext
    simp only [Memory.hasBuffer, hslots, hwidth, Nat.zero_mul, decide_true, Bool.true_and]
    rfl
  · exact hbuffer

end Society

theorem Reachable.starts {c : Config} {w : Society} (hw : Reachable c w) :
    ∃ detected fresh, Society.ofConfig c detected = .ok fresh ∧ fresh.backend = w.backend := by
  induction hw with
  | start detected h => exact ⟨detected, _, h, rfl⟩
  | @next w r _ ih =>
    rw [w.serve_backend r]
    exact ih

end NpcMind
