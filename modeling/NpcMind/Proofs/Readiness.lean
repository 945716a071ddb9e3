import NpcMind.Proofs.Finiteness
import NpcMind.Proofs.Invariants

/-!
# Agents that are ready for a tick

Soundness is lost when something is loaded that no society saved: such a snapshot may carry any seed, any
baseline and any tasks. What it cannot change are lengths, for these are looked at. `Agent.Ready` collects
the lengths that a tick relies on; it holds of every agent of every society, as long as there are buffers for
what its memory and the board hold.
-/

namespace NpcMind

open StatePools Outcome

/-! ### Configurations -/

theorem Budget.room_of_takeVectors {b : Budget} {lengths : List Nat}
    (h : (b.takeVectors lengths).1 = .ok ()) :
    ∀ n ∈ lengths, paddedStride n * entryBytes < UInt64.size / 2 := by
  induction lengths generalizing b with
  | nil => exact fun n hn => nomatch hn
  | cons n rest ih =>
    unfold takeVectors at h
    split at h
    · next b' hb =>
      refine List.forall_mem_cons.mpr ⟨?_, ih h⟩
      have hneed : wrap (1 * paddedStride n) = paddedStride n := by
        rw [Nat.one_mul]
        exact Nat.mod_mod _ _
      unfold takeVector takeMatrix at hb
      dsimp only at hb
      split at hb
      · cases hb
      · obtain ⟨_, hroom, -⟩ := ok_of_bind hb
        have hlt := lt_of_requireRoom hroom
        rwa [hneed] at hlt
    · cases h

namespace Stack

theorem Fits.trans {s t u : Stack} (h : s.Fits t) (h' : t.Fits u) : s.Fits u := by
  have hlayers {cells cells' cells'' : List Cell} (h : List.Forall₂ Cell.Fits cells cells')
      (h' : List.Forall₂ Cell.Fits cells' cells'') : List.Forall₂ Cell.Fits cells cells'' := by
    induction h generalizing cells'' with
    | nil => exact h'
    | cons hc _ ih =>
      cases h' with
      | cons hc' hrest =>
        exact .cons ⟨hc.shaped, hc.inputSize.trans hc'.inputSize, hc.hiddenSize.trans hc'.hiddenSize⟩ (ih hrest)
  exact ⟨h.inputSize.trans h'.inputSize, hlayers h.layers h'.layers⟩

theorem Fits.self {s t : Stack} (h : s.Fits t) : s.Fits s :=
  ⟨rfl, List.forall₂_same.mpr fun c hc => ⟨shaped_of_fits h.layers c hc, rfl, rfl⟩⟩

end Stack

namespace Config

/-- What ticks rely on: numbers that are not finite are repaired, and there are buffers for what the memories
of the agents and the board hold. -/
structure Steady (c : Config) (shared : Stack) : Prop where
  valid : c.validate = .ok ()
  guard : c.numerics.guard = .sanitize
  memory : Memory.hasBuffer c.memory.slots c.memory.width = true
  board : c.limits.gossipSlots = 0 ∨ Memory.hasBuffer c.limits.gossipSlots c.memory.width = true
  stack : Stack.ofConfig (controllerInputWidth c.memory.width) c.controller = .ok shared

/-- Whatever an agent decides on its own is remembered: no write signal is too weak, and there is a slot. -/
structure Retentive (c : Config) : Prop where
  threshold : c.temper.writeThreshold < 0
  slots : 0 < c.memory.slots

namespace Steady

variable {c : Config} {shared : Stack}

theorem vectorSize_width (h : c.Steady shared) : vectorSize c.memory.width = c.memory.width :=
  Agent.vectorSize_of_hasBuffer h.memory

theorem experience (h : c.Steady shared) : experienceWidth ≤ c.memory.width :=
  (accepted_of_validate h.valid).width

theorem readout (h : c.Steady shared) : readoutWidth ≤ shared.finalSize := by
  rw [Stack.finalSize_eq, Stack.hiddenSizes_ofConfig h.stack]
  exact (accepted_of_validate h.valid).readout

theorem shape (h : c.Steady shared) : shared.Fits shared := Stack.fits_ofConfig h.stack

/-- A board on which something can be put back is one with a buffer. -/
theorem enduring (h : c.Steady shared) : Society.Enduring (Society.BoardFits c) where
  told hb ht := hb.told ht
  clear hb := hb.clear
  restore {b b' r} hb hr := by
    have hslots : 0 < c.limits.gossipSlots := hb.configured.mp rfl
    have hfits := hb.fits b rfl
    obtain ⟨memory, hm, -⟩ := ok_of_bind hr
    obtain ⟨hrslots, hrwidth, -⟩ := Memory.shape_of_restore hm
    have hback : Memory.hasBuffer r.slots r.width = true := by
      have hcapacity : b.memory.capacity = c.limits.gossipSlots := hfits.memory.size
      have hwidth : b.memory.width = c.boardMemory.width := congrArg Config.Memory.width hfits.memory.config
      rw [hrslots, hrwidth, hcapacity, hwidth]
      exact h.board.resolve_left (by omega)
    refine ⟨⟨fun _ => hslots, fun _ => rfl⟩, fun k hk => ?_⟩
    cases hk
    exact hfits.restore (.inr hback) hr

end Steady

end Config

/-! ### Lengths -/

namespace Agent

/-- Whoever is attached has a controller of the shape of the shared one, and expects as many values as that
gives out. -/
structure Equipped (c : Config) (shared : Stack) (binding : Binding) (controller : Option Stack)
    (outputSize : Nat) : Prop where
  detached : binding = .detached ↔ controller = none
  fits : ∀ stack, controller = some stack → stack.Fits shared
  outputSize : ∀ stack, controller = some stack → outputSize = stack.outputSize c.controller.outputMode

/-- The lengths that a tick relies on. -/
structure Formed (c : Config) (shared : Stack) (a : Agent) : Prop where
  equipped : Equipped c shared a.binding a.controller a.outputSize
  memory : a.memory.Fits c.memory
  baseline : a.affect.baseline.size = Emotion.count
  feelings : a.affect.values.size = Emotion.count
  levels : a.attention.levels.size = channelCount
  workingMemory : a.attention.workingMemory.size = workingMemorySize
  context : a.longTermContext.size = c.memory.width
  room : c.memory.width < UInt64.size / 4

/-- An agent with the right lengths, and states that fit its controller. -/
structure Ready (c : Config) (shared : Stack) (a : Agent) (states : List CellState) : Prop where
  formed : a.Formed c shared
  states : StatesFit a.controller states

variable {c : Config} {shared : Stack} {a b : Agent} {p : StatePools} {states next : List CellState}

theorem Equipped.attached {binding : Binding} {controller : Option Stack} {outputSize : Nat} {stack : Stack}
    (h : Equipped c shared binding controller outputSize) (hc : controller = some stack) :
    binding ≠ .detached := by
  intro hd
  rw [h.detached.mp hd] at hc
  cases hc

theorem Equipped.adapt {binding binding' : Binding} {stack stack' : Stack} {outputSize : Nat}
    (h : Equipped c shared binding (some stack) outputSize) (hb : binding' ≠ .detached)
    (hfits : stack'.Fits shared) : Equipped c shared binding' (some stack') outputSize where
  detached := ⟨fun hd => absurd hd hb, fun hn => absurd hn (Option.some_ne_none _)⟩
  fits := by
    rintro _ ⟨⟩
    exact hfits
  outputSize := by
    rintro _ ⟨⟩
    exact (h.outputSize stack rfl).trans (((h.fits stack rfl).outputSize _).trans (hfits.outputSize _).symm)

theorem statesFit_of_fits {stack stack' : Stack} (h : StatesFit (some stack) states) (hs : stack.Fits shared)
    (hs' : stack'.Fits shared) : StatesFit (some stack') states := by
  have hsizes : stack.hiddenSizes = stack'.hiddenSizes := hs.hiddenSizes.trans hs'.hiddenSizes.symm
  unfold StatesFit at h ⊢
  simp only [Option.map_some, Option.getD_some] at h ⊢
  rwa [← hsizes]

theorem Ready.adapt (h : Ready c shared a states) {stack stack' : Stack} (hc : a.controller = some stack)
    {binding : Binding} (hb : binding ≠ .detached) (hfits : stack'.Fits shared) :
    Ready c shared { a with controller := some stack', binding } states := by
  have hf := h.formed
  have hequipped := hf.equipped
  have hstates := h.states
  rw [hc] at hequipped hstates
  exact ⟨{ hf with equipped := hequipped.adapt hb hfits }, statesFit_of_fits hstates (hequipped.fits stack rfl) hfits⟩

/-- What is charged for an agent includes vectors as long as its memory is wide. -/
theorem room_of_charge (hc : c.Steady shared) {left budget : Budget} {outputSize finalSize : Nat}
    (h : charge left c outputSize finalSize = .ok budget) : c.memory.width < UInt64.size / 4 := by
  unfold charge at h
  obtain ⟨b, -, h⟩ := ok_of_bind h
  obtain ⟨_, -, h⟩ := ok_of_bind h
  generalize Attention.charge b = charged at h
  obtain ⟨attention, b'⟩ := charged
  obtain ⟨_, -, h⟩ := ok_of_bind h
  dsimp only at h
  generalize htaken : b'.takeVectors _ = taken at h
  obtain ⟨rest, b''⟩ := taken
  obtain ⟨_, rfl, -⟩ := ok_of_bind h
  have hroom := Budget.room_of_takeVectors (congrArg Prod.fst htaken) c.memory.width
    (List.mem_append_right [channelCount, channelCount, controllerInputWidth c.memory.width, outputSize,
      Action.count, finalSize] List.mem_cons_self)
  have hwidth : c.memory.width ≤ paddedStride c.memory.width := by
    have := hc.memory
    simp only [Memory.hasBuffer, Bool.and_eq_true, decide_eq_true_eq] at this
    exact this.1
  have hsize : 4 ≤ UInt64.size := by decide
  unfold entryBytes at hroom
  omega

/-! ### Operations other than ticks -/

theorem Ready.renewed (h : Ready c shared a states) : Ready c shared a.renewed (states.map CellState.reset) := by
  have hf := h.formed
  have hlevels : (Attention.initial a.profile.archetype).levels.size = channelCount := by
    simp [Attention.initial]
  refine ⟨⟨hf.equipped, ?_, hf.baseline, hf.baseline, hlevels, Array.size_replicate,
    Array.size_replicate.trans hf.context, hf.room⟩, statesFit_reset h.states⟩
  simp only [Agent.renewed, hf.memory.clear]
  exact Memory.fits_empty _

theorem Ready.shift (h : Ready c shared a states) (change : Float32) :
    Ready c shared (a.shiftRelationship change) states := by
  have hf := h.formed
  have hframe := Affect.SameFrame.shift a.affect change
  exact ⟨{ hf with
    baseline := (congrArg Array.size hframe.baseline).trans hf.baseline
    feelings := hframe.size.trans hf.feelings }, h.states⟩

theorem Ready.reinforce (h : Ready c shared a states) {reward : Float32} {report : PenaltyReport Float32}
    (hr : a.reinforce p c reward = .ok (report, b)) : Ready c shared b states := by
  unfold Agent.reinforce at hr
  split at hr
  · cases hr
  · next stack hc =>
    obtain ⟨rewards, -, hr⟩ := ok_of_bind hr
    obtain ⟨pulls, -, hr⟩ := ok_of_bind hr
    obtain ⟨_, -, hr⟩ := ok_of_bind hr
    cases hr
    unfold Agent.applyUpdates
    split
    · exact h
    · refine h.adapt hc ?_ ((h.formed.equipped.fits stack hc).addAll _)
      split
      · exact nofun
      · exact h.formed.equipped.attached hc

theorem Formed.takeRecords (h : a.Formed c shared) (hc : c.Steady shared) {s : Snapshot}
    (hlengths : a.checkLengths s = .ok ()) (hr : a.takeRecords s = (.ok (), b)) : b.Formed c shared := by
  obtain ⟨memory, consolidator, accumulator, hm, -, -, rfl⟩ := of_takeRecords hr
  obtain ⟨hvalues, hbaseline, hattention, -, hworking, hcontext⟩ := checkLengths_ok.mp hlengths
  rw [Memory.width, h.memory.config] at hcontext
  obtain ⟨hslots, hwidth, -⟩ := Memory.shape_of_restore hm
  have hback : Memory.hasBuffer s.memory.slots s.memory.width = true := by
    rw [hslots, hwidth, Memory.capacity, h.memory.size, Memory.width, h.memory.config]
    exact hc.memory
  exact { h with
    memory := (h.memory.restore (.inr hback) hm).1
    baseline := hbaseline
    feelings := hvalues
    levels := hattention
    workingMemory := hworking
    context := hcontext }

theorem Ready.takeParameters (h : Ready c shared a states) {s : Snapshot}
    (ht : a.takeParameters s = .ok b) : Ready c shared b states := by
  rcases takeParameters_cases ht with ⟨-, rfl⟩ | ⟨values, stack, stack', -, hstack, hload, rfl⟩
  · exact h
  · have hfits := h.formed.equipped.fits stack hstack
    exact h.adapt hstack (h.formed.equipped.attached hstack) ((Stack.fits_of_load hfits.self hload).trans hfits)

/-- A snapshot that fits leaves an agent with the right lengths, whatever else it carries. -/
theorem Ready.restore (h : Ready c shared a states) (hc : c.Steady shared) {s : Snapshot}
    (hv : Sees p.layers a.handles states) (hr : a.restore s p = (.ok (), b, p.put a.handles next))
    (hlen : next.length = states.length) : Ready c shared b next := by
  obtain ⟨a', next', hlengths, ht, hstates, hrecords, hput⟩ := of_restore hv hr
  have hready := h.takeParameters ht
  have hlengths' : a'.checkLengths s = .ok () := by
    rw [← hlengths]
    rcases takeParameters_cases ht with ⟨-, rfl⟩ | ⟨_, _, _, -, -, -, rfl⟩ <;> rfl
  have hlen' := length_changeStates CellState.restore states s.states
  have hfit : StatesFit a'.controller (changeStates CellState.restore states s.states).2 :=
    CellState.HasSize.restoreAll hready.states s.states
  rw [hstates] at hlen' hfit
  -- The states in the pools are those that were restored.
  obtain rfl : next = next' := by
    have hsees : Sees (p.put a.handles next).layers a.handles next := sees_putAll hv hlen
    rw [hput] at hsees
    exact hsees.unique (sees_putAll hv hlen')
  refine ⟨hready.formed.takeRecords hc hlengths' hrecords, ?_⟩
  have hcontroller := (takeRecords_parameters a' s).2
  rw [hrecords] at hcontroller
  rw [show b.controller = a'.controller from hcontroller]
  exact hfit

/-- A new agent has the right lengths. -/
theorem ready_of_assemble (hc : c.Steady shared) {profile : Profile} {binding : Binding}
    {handles : List Handle} {left : Budget}
    (h : assemble profile binding (initialController binding shared) handles left c = .ok a) :
    Ready c shared a (initialStates binding shared) := by
  have hroom : c.memory.width < UInt64.size / 4 := by
    obtain ⟨budget, hcharge, -⟩ := ok_of_bind h
    exact room_of_charge hc hcharge
  obtain ⟨budget, memory, consolidator, hmemory, -, rfl⟩ := assemble_cases h
  have hlevels : (Attention.initial profile.archetype).levels.size = channelCount := by
    simp [Attention.initial]
  refine ⟨⟨⟨?_, ?_, ?_⟩, ?_, profile.archetype.size_baseline, profile.archetype.size_baseline, hlevels,
    Array.size_replicate, Array.size_replicate.trans hc.vectorSize_width, hroom⟩, ?_⟩
  · unfold initialController
    split
    · next hb => exact ⟨fun _ => rfl, fun _ => hb⟩
    · next hb => exact ⟨fun hd => absurd hd hb, fun hn => absurd hn (Option.some_ne_none _)⟩
  · intro stack hs
    unfold initialController at hs
    split at hs
    · cases hs
    · cases hs
      exact hc.shape
  · intro stack hs
    dsimp only at hs ⊢
    rw [hs]
    rfl
  · simp only [Memory.eq_empty_of_ofConfig hmemory]
    exact Memory.fits_empty _
  · exact statesFit_initial binding shared

end Agent

end NpcMind
