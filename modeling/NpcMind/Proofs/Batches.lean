import NpcMind.Proofs.Halting
import NpcMind.Proofs.Independence

/-!
# Batches of ticks

A batch is refused as a whole if some agent of it is not there, and then nothing has changed. Otherwise it is
the ticks of its frames in turn, an agent as often as it is named, and all of them succeed. For a tick adds and
removes nobody, so whoever was there when the batch was looked through is still there when its turn comes.
-/

namespace NpcMind

open Outcome

namespace Society

variable {w w' : Society} {dt : Float32} {f : Frame} {before rest : List Frame}

/-- The tick of a frame. -/
def tickFrame (w : Society) (dt : Float32) (f : Frame) : Outcome Decision × Society :=
  w.tick f.id f.senses f.encounter dt f.taskId

/-- The ticks of the frames succeed in turn and lead from one society to the other. -/
inductive Ticks (dt : Float32) : Society → List Frame → Society → Prop
  | nil {w : Society} : Ticks dt w [] w
  | cons {w w' : Society} {f : Frame} {rest : List Frame} {d : Decision} :
      (w.tickFrame dt f).1 = .ok d → Ticks dt (w.tickFrame dt f).2 rest w' → Ticks dt w (f :: rest) w'

/-- The ticks of the frames succeed in turn, up to one that stops the batch with an error. -/
inductive Breaks (dt : Float32) (err : Error) : Society → List Frame → Society → Prop
  | here {w : Society} {f : Frame} {rest : List Frame} :
      w.tickFrame dt f = (.error err, w) → Breaks dt err w (f :: rest) w
  | later {w w' : Society} {f : Frame} {rest : List Frame} {d : Decision} :
      (w.tickFrame dt f).1 = .ok d → Breaks dt err (w.tickFrame dt f).2 rest w' → Breaks dt err w (f :: rest) w'

/-! ### All frames -/

/-- A tick that fails changes nothing. -/
theorem tickFrame_error {err : Error} (h : (w.tickFrame dt f).1 = .error err) :
    w.tickFrame dt f = (.error err, w) := by
  unfold tickFrame tick at h ⊢
  split at h
  · cases h
    rfl
  · split at h
    · cases h
      rfl
    · cases h

theorem Ticks.tickAll_eq {frames : List Frame} (h : Ticks dt w frames w') : w.tickAll dt frames = (.ok (), w') := by
  induction h with
  | nil => rfl
  | cons hd _ ih => exact (tickAll_cons_ok hd _).trans ih

theorem Breaks.tickAll_eq {frames : List Frame} {err : Error} (h : Breaks dt err w frames w') :
    w.tickAll dt frames = (.error err, w') := by
  induction h with
  | here hstop =>
    unfold tickFrame at hstop
    simp only [tickAll, hstop]
  | later hd _ ih => exact (tickAll_cons_ok hd _).trans ih

/-! ### Looking a batch through -/

theorem check_frame (w : Society) (f : Frame) : (do let _ ← w.handle f.id : Outcome Unit) =
    if w.contains f.id then .ok () else .error (.unknownAgent f.id) := by
  rcases w.handle_cases f.id with ⟨hl, hh⟩ | ⟨h, hl, hh⟩ <;> simp only [contains, hl, hh] <;> rfl

theorem update_missing (hbefore : ∀ g ∈ before, w.contains g.id = true) (hf : w.contains f.id = false)
    (dt : Float32) : w.update (before ++ f :: rest) dt = (.error (.unknownAgent f.id), w) := by
  have hcheck : forM (before ++ f :: rest) (fun f => (do let _ ← w.handle f.id : Outcome Unit)) =
      .error (.unknownAgent f.id) := by
    induction before with
    | nil =>
      rw [List.nil_append, List.forM_cons, check_frame, hf]
      rfl
    | cons g before ih =>
      rw [List.cons_append, List.forM_cons, check_frame, hbefore g List.mem_cons_self]
      exact ih fun g' hg' => hbefore g' (List.mem_cons_of_mem g hg')
  simp only [update, List.forM_eq_forM, hcheck]

theorem update_present {frames : List Frame} (h : ∀ f ∈ frames, w.contains f.id = true) (dt : Float32) :
    w.update frames dt = w.tickAll dt frames := by
  rcases w.update_cases frames dt with ⟨-, heq⟩ | ⟨f, hf, hmissing, -⟩
  · exact heq
  · rw [h f hf] at hmissing
    cases hmissing

end Society

variable {c : Config} {w : Society} {frames : List Frame}

open Society

/-- **The ticks of a batch succeed in turn**, unless the guard halts one of them. -/
theorem Reachable.ticks (hw : Reachable c w) (hc : c.repairing.Steady w.controller)
    (hall : ∀ f ∈ frames, w.contains f.id = true) (dt : Float32) :
    (∃ w', Ticks dt w frames w') ∨
      c.numerics.guard = .halt ∧ ∃ site w', Breaks dt (.fault (.nonFinite site)) w frames w' := by
  induction frames generalizing w with
  | nil => exact .inl ⟨w, .nil⟩
  | cons f rest ih =>
    rcases hw.tick_unless_halted hc (hall f List.mem_cons_self) f.senses f.encounter dt f.taskId with
      ⟨d, hd⟩ | ⟨hhalt, site, hstop⟩
    · have hticked : Reachable c (w.tickFrame dt f).2 := .next (.tick f.id f.senses f.encounter dt f.taskId) hw
      have hc' : c.repairing.Steady (w.tickFrame dt f).2.controller := by
        rwa [hw.owned.controller_eq hticked.owned]
      have hall' : ∀ g ∈ rest, (w.tickFrame dt f).2.contains g.id = true := fun g hg =>
        (w.tick_contains f.id g.id f.senses f.encounter dt f.taskId).trans (hall g (List.mem_cons_of_mem f hg))
      rcases ih hticked hc' hall' with ⟨w', hw'⟩ | ⟨hhalt, site, w', hw'⟩
      · exact .inl ⟨w', .cons hd hw'⟩
      · exact .inr ⟨hhalt, site, w', .later hd hw'⟩
    · exact .inr ⟨hhalt, site, w, .here hstop⟩

/-- **`update` is all or nothing, and the ticks of its frames in turn.** In every reachable society `w`: if some frame
names an agent that is not there, the answer names the first such one and the society is `w`. If all are there and the
memories have buffers, `w.update frames dt` succeeds and leads where the `Ticks` of the frames lead, or the guard is
`halt` and the batch `Breaks` at a number that is not finite. If the width of the memory fits 64 bits but its
`paddedStride` wraps below it, a batch that is not empty breaks at its first tick, out of bounds. -/
theorem Reachable.update_in_turn (hw : Reachable c w) (frames : List Frame) (dt : Float32) :
    (∀ before f after, frames = before ++ f :: after → (∀ g ∈ before, w.contains g.id = true) →
      w.contains f.id = false → w.update frames dt = (.error (.unknownAgent f.id), w)) ∧
    ((∀ f ∈ frames, w.contains f.id = true) →
      (Memory.hasBuffer c.memory.slots c.memory.width = true →
        c.limits.gossipSlots = 0 ∨ Memory.hasBuffer c.limits.gossipSlots c.memory.width = true →
        (∃ w', Ticks dt w frames w' ∧ w.update frames dt = (.ok (), w')) ∨
        c.numerics.guard = .halt ∧ ∃ site w', Breaks dt (.fault (.nonFinite site)) w frames w' ∧
          w.update frames dt = (.error (.fault (.nonFinite site)), w')) ∧
      (c.memory.width < UInt64.size → paddedStride c.memory.width < c.memory.width → frames ≠ [] →
        Breaks dt .outOfBounds w frames w ∧ w.update frames dt = (.error .outOfBounds, w))) := by
  refine ⟨?_, fun hall => ⟨fun hmemory hboard => ?_, fun hsize hstride hne => ?_⟩⟩
  · rintro before f after rfl hbefore hf
    exact update_missing hbefore hf dt
  · obtain ⟨_, _, hfresh, -⟩ := hw.starts
    obtain ⟨_, _, hvalid, -⟩ := Society.ofConfig_cases hfresh
    have hc : c.repairing.Steady w.controller := ⟨hvalid, rfl, hmemory, hboard, hw.owned.stack⟩
    rw [update_present hall]
    rcases hw.ticks hc hall dt with ⟨w', hw'⟩ | ⟨hhalt, site, w', hw'⟩
    · exact .inl ⟨w', hw', hw'.tickAll_eq⟩
    · exact .inr ⟨hhalt, site, w', hw', hw'.tickAll_eq⟩
  · obtain ⟨f, rest, rfl⟩ := List.exists_cons_of_ne_nil hne
    have hnarrow : vectorSize c.memory.width < sensedWidth := by
      rw [Agent.vectorSize_of_wrapped hsize hstride]
      decide
    have hbreaks : Breaks dt .outOfBounds w (f :: rest) w :=
      .here (tickFrame_error (hw.tick_narrow hnarrow (hall f List.mem_cons_self) f.senses f.encounter dt f.taskId))
    rw [update_present hall]
    exact ⟨hbreaks, hbreaks.tickAll_eq⟩

/-- By default two frames of an agent are two ticks, and with a frame of somebody else nothing happens. With the
widest of memories even one frame of an agent fails. -/
theorem update_in_turn_by_default_not_widest :
    (∃ w, Reachable {} w ∧ ∀ s e t s' e' t' dt,
      (∃ w', Ticks dt w [⟨⟨1, 2⟩, s, e, t⟩, ⟨⟨1, 2⟩, s', e', t'⟩] w' ∧
        w.update [⟨⟨1, 2⟩, s, e, t⟩, ⟨⟨1, 2⟩, s', e', t'⟩] dt = (.ok (), w')) ∧
      w.update [⟨⟨1, 2⟩, s, e, t⟩, ⟨⟨1, 3⟩, s', e', t'⟩] dt = (.error (.unknownAgent ⟨1, 3⟩), w)) ∧
    ∃ w, Reachable { memory := { slots := 0, width := 18446744073709551615 } } w ∧ w.contains ⟨1, 2⟩ = true ∧
      ∀ s e t dt, w.update [⟨⟨1, 2⟩, s, e, t⟩] dt = (.error .outOfBounds, w) := by
  constructor
  · obtain ⟨w, hw, hid, hother⟩ : ∃ w, Reachable {} w ∧ w.contains ⟨1, 2⟩ = true ∧ w.contains ⟨1, 3⟩ = false :=
      ⟨_, .next (.spawn ⟨⟨1, 2⟩, "Vex", .rogue, none⟩) (.start .scalar rfl), rfl, rfl⟩
    refine ⟨w, hw, fun s e t s' e' t' dt => ⟨?_, ?_⟩⟩
    · have hupdate := Reachable.update_in_turn hw [⟨⟨1, 2⟩, s, e, t⟩, ⟨⟨1, 2⟩, s', e', t'⟩] dt
      rcases (hupdate.2 (by simp [hid])).1 (by decide) (by decide) with hticks | ⟨hhalt, -⟩
      · exact hticks
      · cases hhalt
    · exact (Reachable.update_in_turn hw _ dt).1 [⟨⟨1, 2⟩, s, e, t⟩] ⟨⟨1, 3⟩, s', e', t'⟩ [] rfl (by simp [hid]) hother
  · obtain ⟨w, hw, hid⟩ : ∃ w, Reachable { memory := { slots := 0, width := 18446744073709551615 } } w ∧
        w.contains ⟨1, 2⟩ = true :=
      ⟨_, .next (.spawnWith ⟨⟨1, 2⟩, "Vex", .rogue, none⟩ .detached) (.start .scalar rfl), rfl⟩
    refine ⟨w, hw, hid, fun s e t dt => ?_⟩
    exact (((Reachable.update_in_turn hw [⟨⟨1, 2⟩, s, e, t⟩] dt).2 (by simp [hid])).2 (by decide) (by decide)
      (List.cons_ne_nil _ _)).2

end NpcMind
