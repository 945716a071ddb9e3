import NpcMind.Proofs.Independence

/-!
# What a society holds of an agent

`Society.Holds w id a states` says which agent has an identity and what the states of its controller are.
A request that does not concern an agent, as `Request.spares` has it, leaves both as they are.
-/

namespace NpcMind

open StatePools Outcome

/-- The request neither changes nor removes the agent of that identity. -/
def Request.spares (id : Uuid) : Request → Bool
  | .despawn id' => id' != id
  | .tick id' _ _ _ _ => id' != id
  | .update frames _ => frames.all fun f => f.id != id
  | .reset id' => id' != id
  | .reinforce id' _ => id' != id
  | .shiftRelationship id' _ => id' != id
  | _ => true

namespace Society

variable {c : Config} {w w' : Society} {id id' : Uuid} {a b : Agent} {states states' next : List CellState}
  {β : Type} {f : Agent → StatePools → Outcome β × Agent × StatePools}

/-- The agent of that identity, and the states of its controller. -/
def Holds (w : Society) (id : Uuid) (a : Agent) (states : List CellState) : Prop :=
  ∃ h, w.index.lookup id = some h ∧ w.agents.get? h = some a ∧ Sees w.pools.layers a.handles states

theorem Holds.unique (h : w.Holds id a states) (h' : w.Holds id b states') : a = b ∧ states = states' := by
  obtain ⟨k, hk, ha, hv⟩ := h
  obtain ⟨k', hk', hb, hv'⟩ := h'
  rw [hk] at hk'
  cases hk'
  rw [ha] at hb
  cases hb
  exact ⟨rfl, hv.unique hv'⟩

theorem Holds.contains (h : w.Holds id a states) : w.contains id = true := by
  obtain ⟨k, hk, -⟩ := h
  rw [Society.contains, hk]
  rfl

theorem Holds.sees (h : w.Holds id a states) : Sees w.pools.layers a.handles states := by
  obtain ⟨-, -, -, hv⟩ := h
  exact hv

theorem Holds.locate (h : w.Holds id a states) : ∃ k, w.locate id = .ok (k, a) := by
  obtain ⟨k, hk, ha, -⟩ := h
  exact ⟨k, locate_ok hk ha⟩

theorem Holds.agent (h : w.Holds id a states) : w.agent id = .ok a := by
  obtain ⟨k, hk, ha, -⟩ := h
  simp only [Society.agent, handle, hk, bind, Except.bind, SlotPool.get_eq_ok.mpr ha]

theorem Holds.id_eq (h : w.Holds id a states) (hw : w.Owned c) : a.profile.id = id := by
  obtain ⟨k, hk, ha, -⟩ := h
  obtain ⟨b, hb, hid⟩ := hw.located id k hk
  rw [ha] at hb
  cases hb
  exact hid

theorem Owned.holds (hw : w.Owned c) (hid : w.contains id = true) : ∃ a states, w.Holds id a states := by
  obtain ⟨h, hl⟩ := Option.isSome_iff_exists.mp hid
  obtain ⟨a, states, -, ha, -, hv⟩ := hw.locate hl
  exact ⟨a, states, h, hl, ha, hv⟩

theorem Owned.holds_agent (hw : w.Owned c) (ha : w.agent id = .ok a) : ∃ states, w.Holds id a states := by
  have hid : w.contains id = true := by
    obtain ⟨k, hk, -⟩ := ok_of_bind ha
    rcases handle_cases w id with ⟨-, hh⟩ | ⟨k, hlook, -⟩
    · rw [hh] at hk
      cases hk
    · rw [Society.contains, hlook]
      rfl
  obtain ⟨b, states, hb⟩ := hw.holds hid
  obtain rfl : b = a := Except.ok.inj (hb.agent.symm.trans ha)
  exact ⟨states, hb⟩

/-- What is held after an operation that leaves an agent alone was held before it. -/
theorem Owned.holds_before (hw : w.Owned c) (hid : w.contains id = true)
    (hframe : ∀ a states, w.Holds id a states → w'.Holds id a states) (h : w'.Holds id b states') :
    w.Holds id b states' := by
  obtain ⟨a, states, ha⟩ := hw.holds hid
  obtain ⟨rfl, rfl⟩ := (hframe a states ha).unique h
  exact ha

/-! ### Operations on one agent -/

theorem Holds.act (h : w.Holds id a states) {out : Outcome β}
    (hf : f a w.pools = (out, b, w.pools.put a.handles next)) (hlen : next.length = states.length)
    (hb : b.handles = a.handles) : (w.act id f).1 = out ∧ (w.act id f).2.Holds id b next := by
  obtain ⟨k, hk, ha, hv⟩ := h
  have hact : w.act id f =
      (out, { w with pools := w.pools.put a.handles next, agents := w.agents.set k b }) := by
    simp only [Society.act, locate_ok hk ha, hf]
  rw [hact]
  refine ⟨rfl, k, hk, SlotPool.get?_set_self ha, ?_⟩
  rw [hb]
  exact sees_putAll hv hlen

theorem Holds.act_other (h : w.Holds id' a states) (hw : w.Owned c) (hf : Agent.IsLocal f) (hne : id ≠ id') :
    (w.act id f).2.Holds id' a states := by
  obtain ⟨k', hk', ha, hv⟩ := h
  rcases handle_cases w id with ⟨hk, -⟩ | ⟨k, hk, -⟩
  · rw [act_unknown hk]
    exact ⟨k', hk', ha, hv⟩
  · obtain ⟨b, states', hl, hb, rfl, hv'⟩ := hw.locate hk
    obtain ⟨out, b', next, -, -, hact, -⟩ := hf b w.pools w.pools states' hv' hv'
    have hkk : k' ≠ k := by
      rintro rfl
      obtain ⟨a', ha', hid⟩ := hw.located id' k' hk'
      rw [hb] at ha'
      cases ha'
      exact hne hid
    simp only [Society.act, hl, hact]
    refine ⟨k', hk', (SlotPool.get?_set_of_ne hkk).trans ha, ?_⟩
    exact hv.putAll_apart (hw.apart k b k' a hb ha hkk.symm)

/-! ### Adding and removing agents -/

theorem Holds.spawnWith (h : w.Holds id a states) (hw : w.Owned c) (p : Profile) (binding : Binding) :
    (w.spawnWith p binding).2.Holds id a states := by
  obtain ⟨k, hk, ha, hv⟩ := h
  rcases hw.spawnWith_cases p binding with ⟨e, layers, heq, -, hsame⟩ |
    ⟨b, left, k', handles, agents, layers, heq, hnew, -, hins, hdrawn, -⟩
  · rw [heq]
    exact ⟨k, hk, ha, hsame.sees hv⟩
  · rw [heq]
    have hne : (id == p.id) = false := by
      rw [beq_eq_false_iff_ne]
      rintro rfl
      rw [hnew] at hk
      cases hk
    refine ⟨k, by simp only [List.lookup_cons, hne, hk], ?_, (hdrawn.sees hv).1⟩
    rw [hins.get?, if_neg, ha]
    rintro rfl
    exact hins.fresh k a ha rfl

theorem Holds.despawn (h : w.Holds id' a states) (hw : w.Owned c) (hne : id ≠ id') :
    (w.despawn id).2.Holds id' a states := by
  obtain ⟨k', hk', ha, hv⟩ := h
  rcases handle_cases w id with ⟨-, hh⟩ | ⟨k, hk, -⟩
  · simp only [Society.despawn, hh]
    exact ⟨k', hk', ha, hv⟩
  · obtain ⟨b, agents, hb, rfl, hrem, heq⟩ := hw.despawn_eq hk
    have hkk : k ≠ k' := by
      rintro rfl
      obtain ⟨a', ha', hid⟩ := hw.located id' k hk'
      rw [hb] at ha'
      cases ha'
      exact hne hid
    obtain ⟨states', hv'⟩ := hw.live k b hb
    have hreleased : Released w.pools.layers b.handles (w.pools.release b.handles).layers :=
      releaseAll_released (fun pool hp => (hw.layers pool hp).1) hv'
    rw [heq]
    refine ⟨k', ?_, ?_, hreleased.sees (hw.apart k b k' a hb ha hkk) hv⟩
    · rw [Owned.lookup_filter, if_neg (Ne.symm hne), hk']
    · rw [hrem.get?, if_neg hkk.symm, ha]

theorem spawnWith_ok {p : Profile} {binding : Binding} (h : (w.spawnWith p binding).1 = .ok id) :
    id = p.id ∧ w.contains p.id = false := by
  unfold Society.spawnWith at h
  split at h
  · cases h
  next hnew =>
  split at h
  · cases h
  · split at h
    · cases h
    · split at h
      · cases h
      · cases h
        exact ⟨rfl, eq_false_of_ne_true hnew⟩

/-- A load adds an agent and resumes it; if that fails, the agent is removed again. -/
theorem load_cases (w : Society) (s : Snapshot) :
    (∃ e, w.load s = (.error e, w)) ∨
    (∃ e, w.load s = (.error e, (w.spawnWith s.profile s.binding).2)) ∨
    (w.spawnWith s.profile s.binding).1 = .ok s.profile.id ∧
      (((w.spawnWith s.profile s.binding).2.restore s.profile.id s).1 = .ok () ∧
          w.load s = (.ok s.profile.id, ((w.spawnWith s.profile s.binding).2.restore s.profile.id s).2) ∨
        ∃ e, w.load s = (.error e,
          (((w.spawnWith s.profile s.binding).2.restore s.profile.id s).2.despawn s.profile.id).2)) := by
  unfold Society.load
  split
  · next e _ => exact .inl ⟨e, rfl⟩
  · have hid (i : Uuid) : (w.spawnWith s.profile s.binding).1 = .ok i → i = s.profile.id :=
      fun h => (spawnWith_ok h).1
    generalize w.spawnWith s.profile s.binding = spawned at hid ⊢
    obtain ⟨e | id, w₁⟩ := spawned
    · exact .inr (.inl ⟨e, rfl⟩)
    · obtain rfl := hid id rfl
      refine .inr (.inr ⟨rfl, ?_⟩)
      dsimp only
      generalize w₁.restore s.profile.id s = restored
      obtain ⟨e | _, w₂⟩ := restored
      · refine .inr ?_
        dsimp only
        generalize w₂.despawn s.profile.id = despawned
        obtain ⟨e' | _, w₃⟩ := despawned
        · exact ⟨e', rfl⟩
        · exact ⟨e, rfl⟩
      · exact .inl ⟨rfl, rfl⟩

/-- What a load did that succeeded. -/
theorem of_load {s : Snapshot} (h : (w.load s).1 = .ok id) :
    (w.spawnWith s.profile s.binding).1 = .ok s.profile.id ∧
      ((w.spawnWith s.profile s.binding).2.restore s.profile.id s).1 = .ok () ∧
      w.load s = (.ok s.profile.id, ((w.spawnWith s.profile s.binding).2.restore s.profile.id s).2) := by
  rcases w.load_cases s with ⟨e, heq⟩ | ⟨e, heq⟩ | ⟨hspawn, ⟨hrestore, heq⟩ | ⟨e, heq⟩⟩
  · rw [heq] at h
    cases h
  · rw [heq] at h
    cases h
  · exact ⟨hspawn, hrestore, heq⟩
  · rw [heq] at h
    cases h

theorem load_ok {s : Snapshot} (hcompatible : s.checkCompatible w.controller = .ok ())
    (hspawn : (w.spawnWith s.profile s.binding).1 = .ok id)
    (hrestore : ((w.spawnWith s.profile s.binding).2.restore id s).1 = .ok ()) :
    w.load s = (.ok id, ((w.spawnWith s.profile s.binding).2.restore id s).2) := by
  unfold Society.load
  rw [hcompatible]
  generalize w.spawnWith s.profile s.binding = spawned at hspawn hrestore ⊢
  obtain ⟨_, w₁⟩ := spawned
  cases hspawn
  dsimp only at hrestore ⊢
  generalize w₁.restore id s = restored at hrestore ⊢
  obtain ⟨_, w₂⟩ := restored
  cases hrestore
  rfl

theorem Holds.load (h : w.Holds id a states) (hw : w.Owned c) (s : Snapshot) :
    (w.load s).2.Holds id a states := by
  have hspawned := hw.spawnWith s.profile s.binding
  have hheld := h.spawnWith hw s.profile s.binding
  rcases w.load_cases s with ⟨e, heq⟩ | ⟨e, heq⟩ | ⟨hok, hrest⟩
  · rw [heq]
    exact h
  · rw [heq]
    exact hheld
  · have hne : s.profile.id ≠ id := by
      intro hid
      have hnew := (spawnWith_ok hok).2
      rw [hid, h.contains] at hnew
      cases hnew
    generalize w.spawnWith s.profile s.binding = spawned at *
    have hlocal := Agent.isLocal_restore s
    have hrestored := hheld.act_other hspawned hlocal hne
    rcases hrest with ⟨-, heq⟩ | ⟨e, heq⟩
    · rw [heq]
      exact hrestored
    · rw [heq]
      exact hrestored.despawn (hspawned.act hlocal s.profile.id) hne

/-! ### Ticks and batches -/

theorem Holds.tick_other (h : w.Holds id' a states) (hw : w.Owned c) (hne : id ≠ id') (s : Senses)
    (e : Encounter) (dt : Float32) (taskId : Uuid) : (w.tick id s e dt taskId).2.Holds id' a states := by
  obtain ⟨board, heq, -⟩ := tick_eq_act w id s e dt taskId
  rw [heq]
  exact h.act_other hw (Agent.isLocal_tickAct (w.surroundings taskId) s e dt) hne

theorem Holds.tickAll (h : w.Holds id a states) (hw : w.Owned c) {frames : List Frame}
    (hf : ∀ f ∈ frames, f.id ≠ id) (dt : Float32) : (w.tickAll dt frames).2.Holds id a states := by
  induction frames generalizing w with
  | nil => exact h
  | cons f rest ih =>
    have htick := h.tick_other hw (hf f List.mem_cons_self) f.senses f.encounter dt f.taskId
    have howned := (hw.tick f.id f.senses f.encounter dt f.taskId).2
    unfold Society.tickAll
    generalize w.tick f.id f.senses f.encounter dt f.taskId = r at htick howned ⊢
    obtain ⟨_ | _, w₁⟩ := r
    · exact htick
    · exact ih htick howned fun g hg => hf g (List.mem_cons_of_mem f hg)

theorem Holds.update (h : w.Holds id a states) (hw : w.Owned c) {frames : List Frame}
    (hf : ∀ f ∈ frames, f.id ≠ id) (dt : Float32) : (w.update frames dt).2.Holds id a states := by
  rcases w.update_cases frames dt with ⟨-, heq⟩ | ⟨f, -, -, heq⟩ <;> rw [heq]
  · exact h.tickAll hw hf dt
  · exact h

/-- **A request that does not concern an agent leaves it alone.** -/
theorem Holds.serve (h : w.Holds id a states) (hw : w.Owned c) {r : Request} (hr : r.spares id = true) :
    (w.serve r).2.Holds id a states := by
  cases r with
  | spawn p => exact h.spawnWith hw p _
  | spawnWith p binding => exact h.spawnWith hw p binding
  | despawn id' => exact h.despawn hw (by simpa [Request.spares] using hr)
  | tick id' s e dt taskId => exact h.tick_other hw (by simpa [Request.spares] using hr) s e dt taskId
  | update frames dt => exact h.update hw (by simpa [Request.spares] using hr) dt
  | reset id' =>
    simp only [Society.serve, answer, reset_eq_act]
    exact h.act_other hw Agent.isLocal_resetAct (by simpa [Request.spares] using hr)
  | reinforce id' reward =>
    simp only [Society.serve, answer, reinforce_eq_act]
    exact h.act_other hw (Agent.isLocal_reinforceAct _ _) (by simpa [Request.spares] using hr)
  | shiftRelationship id' change =>
    simp only [Society.serve, answer, shiftRelationship_eq_act]
    exact h.act_other hw (Agent.isLocal_shiftAct change) (by simpa [Request.spares] using hr)
  | save id' => exact h
  | load s => exact h.load hw s
  | clearGossip => exact h
  | restoreGossip record =>
    obtain ⟨board, heq, -⟩ := serve_restoreGossip w record
    rw [heq]
    exact h

end Society

end NpcMind
