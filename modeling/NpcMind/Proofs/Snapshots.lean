import NpcMind.Proofs.Soundness

/-!
# Snapshots of sound agents

A snapshot leaves out much of an agent, and holds nothing but data. `Snapshot.Sound` says what the data of a
sound agent satisfy; resuming from them, with success or not, leaves a sound agent. Resuming a new agent
from what was saved of another one makes the two alike.
-/

namespace NpcMind

open StatePools Outcome

/-- What holds of a snapshot that was taken of a sound agent. -/
structure Snapshot.Sound (s : Snapshot) : Prop where
  parameters : s.parameters.isSome = true → s.binding = .perAgent
  baseline : s.affect.baseline = s.profile.archetype.baseline
  seed : s.sampler.seed = s.profile.id.seed
  context : s.longTermContext.size = vectorSize s.memory.width
  memory : s.memory.slots = 0 ∨ Memory.hasBuffer s.memory.slots s.memory.width = true
  accumulator : ∀ e ∈ s.accumulator.sums, Single.Unsigned e.2

/-! ### Putting states back -/

namespace CellState

variable {s s' : CellState} {r : StateRecord} {states states' : List CellState} {sizes : List Nat}

theorem HasSize.restore {n : Nat} (h : s.HasSize n) (hr : s.restore r = .ok s') : s'.HasSize n := by
  unfold CellState.restore at hr
  obtain ⟨_, hhidden, hr⟩ := ok_of_bind hr
  obtain ⟨_, hcell, hr⟩ := ok_of_bind hr
  cases hr
  exact ⟨(eq_of_expectSize hhidden).symm.trans h.hidden, (eq_of_expectSize hcell).symm.trans h.cell⟩

theorem HasSize.restoreAll (h : List.Forall₂ HasSize sizes states) (records : List StateRecord) :
    List.Forall₂ HasSize sizes (changeStates CellState.restore states records).2 := by
  induction h generalizing records with
  | nil => simp [changeStates]
  | @cons n s sizes states hs hstates ih =>
    cases records with
    | nil => exact .cons hs hstates
    | cons r records =>
      simp only [changeStates]
      cases hr : s.restore r with
      | error e => exact .cons hs hstates
      | ok s' => exact .cons (hs.restore hr) (ih records)

/-- A state of the same size takes over what another one carries. -/
theorem restore_toRecord {n : Nat} (h : s.HasSize n) (h' : s'.HasSize n) :
    ∃ t, s'.restore s.toRecord = .ok t ∧ Carries s t := by
  have hhidden : s'.hidden.size = s.toRecord.hidden.size := h'.hidden.trans h.hidden.symm
  have hcell : s'.cell.size = s.toRecord.cell.size := h'.cell.trans h.cell.symm
  refine ⟨{ s'.reset with hidden := s.hidden, cell := s.cell, steps := s.steps }, ?_, ⟨rfl, rfl, rfl⟩⟩
  simp only [CellState.restore, hhidden, hcell, expectSize_ok]
  rfl

theorem restoreAll_toRecord (h : List.Forall₂ HasSize sizes states)
    (h' : List.Forall₂ HasSize sizes states') :
    ∃ next, changeStates CellState.restore states' (states.map CellState.toRecord) = (.ok (), next) ∧
      List.Forall₂ Carries states next := by
  induction h generalizing states' with
  | nil =>
    cases h'
    exact ⟨[], rfl, .nil⟩
  | @cons n s sizes states hs _ ih =>
    cases h' with
    | @cons _ s' _ states' hs' hstates' =>
      obtain ⟨t, ht, hcarries⟩ := restore_toRecord hs hs'
      obtain ⟨next, hnext, hall⟩ := ih hstates'
      exact ⟨t :: next, by simp only [List.map_cons, changeStates, ht, hnext], .cons hcarries hall⟩

end CellState

namespace Agent

variable {c : Config} {shared : Stack} {a b : Agent} {p p' : StatePools} {s : Snapshot}
  {states states' : List CellState}

/-! ### Taking a snapshot -/

/-- What is saved of an agent, for what is saved of its memory. -/
def picture (a : Agent) (states : List CellState) (memory : MemoryRecord) : Snapshot where
  version := Snapshot.currentVersion
  profile := a.profile
  binding := a.binding
  inputSize := (a.controller.map Stack.inputSize).getD 0
  hiddenSizes := (a.controller.map Stack.hiddenSizes).getD []
  parameterCount := a.consolidator.parameterCount
  parameters := if a.binding = .perAgent then a.controller.map Stack.flatten else none
  states := states.map CellState.toRecord
  affect := a.affect
  attention := a.attention.levels
  expectation := a.attention.expectation
  workingMemory := a.attention.workingMemory
  longTermContext := a.longTermContext
  sampler := a.sampler
  ticks := a.ticks
  memory
  consolidator := a.consolidator.toRecord
  accumulator := a.accumulator.toRecord
  writesSinceConsolidation := a.writesSinceConsolidation
  importanceSum := a.importanceSum

theorem snapshot_eq (hv : Sees p.layers a.handles states) :
    a.snapshot p = a.memory.record.map (a.picture states) := by
  unfold snapshot
  rw [records_eq hv]
  cases a.memory.record <;> rfl

/-- Agents that are alike in all respects are saved alike. -/
theorem Alike.picture (h : Alike a b) (hl : LearnsAlike a b)
    (hs : List.Forall₂ CellState.Carries states states') (memory : MemoryRecord) :
    (a.picture states memory).anonymous = (b.picture states' memory).anonymous := by
  have htasks : a.consolidator.toRecord.anonymous = b.consolidator.toRecord.anonymous :=
    congrArg Consolidator.toRecord hl.consolidator
  have hcount : a.consolidator.anonymous.parameterCount = b.consolidator.anonymous.parameterCount := by
    rw [hl.consolidator]
  rw [Consolidator.parameterCount_anonymous, Consolidator.parameterCount_anonymous] at hcount
  simp only [Snapshot.anonymous, Agent.picture, CellState.Carries.map_toRecord hs, h.profile, hl.binding,
    h.controller, htasks, hcount, h.affect, h.levels, h.expectation, h.workingMemory, h.longTermContext, h.sampler,
    h.ticks, hl.accumulator, hl.writesSinceConsolidation, hl.importanceSum]

theorem Sound.picture (h : a.Sound c shared) {memory : MemoryRecord} (hm : a.memory.record = .ok memory)
    (states : List CellState) : (a.picture states memory).Sound where
  parameters hp := by
    unfold Agent.picture at hp ⊢
    dsimp only at hp ⊢
    split at hp
    · assumption
    · cases hp
  baseline := h.baseline
  seed := h.seed
  context := by
    have hwidth : memory.width = c.memory.width := by
      rw [(Memory.of_record hm).2]
      exact congrArg Config.Memory.width h.memory.config
    exact h.context.trans (congrArg vectorSize hwidth.symm)
  memory := h.memory.backed_of_record hm
  accumulator := h.accumulator.record_unsigned

/-! ### Resuming leaves an agent sound -/

theorem takeParameters_cases (h : a.takeParameters s = .ok b) :
    (s.parameters = none ∧ b = a) ∨ ∃ values stack stack', s.parameters = some values ∧
      a.controller = some stack ∧ stack.load values = .ok stack' ∧
      b = { a with controller := some stack' } := by
  unfold takeParameters at h
  split at h
  · next hp =>
    cases h
    exact .inl ⟨hp, rfl⟩
  · next values hp =>
    split at h
    · cases h
    · next stack hc =>
      obtain ⟨stack', hload, h⟩ := ok_of_bind h
      cases h
      exact .inr ⟨values, stack, stack', hp, hc, hload, rfl⟩

theorem Whole.takeParameters (h : Whole c shared a states) (hshared : shared.Fits shared) (hs : s.Sound)
    (hb : s.binding = a.binding) (hc : a.controller = initialController a.binding shared)
    (ht : a.takeParameters s = .ok b) : Whole c shared b states := by
  rcases takeParameters_cases ht with ⟨-, rfl⟩ | ⟨values, stack, stack', hp, hstack, hload, rfl⟩
  · exact h
  · have hown : a.binding = .perAgent := hb.symm.trans (hs.parameters (by rw [hp]; rfl))
    have hsame : shared = stack := by
      rw [hc, hown] at hstack
      exact Option.some.inj hstack
    have hadapted := h.adapt hstack (Stack.fits_of_load hshared (hsame ▸ hload))
    rw [← hown] at hadapted
    exact hadapted

theorem checkLengths_ok : a.checkLengths s = .ok () ↔
    s.affect.values.size = Emotion.count ∧ s.affect.baseline.size = Emotion.count ∧
      s.attention.size = channelCount ∧ s.expectation.size = channelCount ∧
      s.workingMemory.size = workingMemorySize ∧ s.longTermContext.size = a.memory.width := by
  constructor
  · intro h
    unfold checkLengths at h
    obtain ⟨_, hvalues, h⟩ := ok_of_bind h
    obtain ⟨_, hbaseline, h⟩ := ok_of_bind h
    obtain ⟨_, hattention, h⟩ := ok_of_bind h
    obtain ⟨_, hexpectation, h⟩ := ok_of_bind h
    obtain ⟨_, hworking, h⟩ := ok_of_bind h
    exact ⟨(eq_of_expectSize hvalues).symm, (eq_of_expectSize hbaseline).symm,
      (eq_of_expectSize hattention).symm, (eq_of_expectSize hexpectation).symm,
      (eq_of_expectSize hworking).symm, (eq_of_expectSize h).symm⟩
  · rintro ⟨hvalues, hbaseline, hattention, hexpectation, hworking, hcontext⟩
    simp only [checkLengths, hvalues, hbaseline, hattention, hexpectation, hworking, hcontext, expectSize_ok]
    rfl

/-- Nothing is resumed from a snapshot whose vectors have the wrong length. -/
theorem checkLengths_of_restore (h : (a.restore s p).1 = .ok ()) : a.checkLengths s = .ok () := by
  unfold Agent.restore at h
  cases hlengths : a.checkLengths s with
  | error e =>
    rw [hlengths] at h
    cases h
  | ok u => rfl

theorem takeRecords_parameters (a : Agent) (s : Snapshot) :
    (a.takeRecords s).2.binding = a.binding ∧ (a.takeRecords s).2.controller = a.controller := by
  unfold takeRecords
  dsimp only
  cases a.memory.restore s.memory with
  | error e => exact ⟨rfl, rfl⟩
  | ok memory =>
    simp only [keepUnless, andThen]
    cases a.consolidator.restore s.consolidator with
    | error e => exact ⟨rfl, rfl⟩
    | ok consolidator =>
      dsimp only
      cases a.accumulator.restore s.accumulator <;> exact ⟨rfl, rfl⟩

theorem takeRecords_ok {memory : Memory} {consolidator : Consolidator} {accumulator : Accumulator}
    (hm : a.memory.restore s.memory = .ok memory)
    (hk : a.consolidator.restore s.consolidator = .ok consolidator)
    (ha : a.accumulator.restore s.accumulator = .ok accumulator) :
    a.takeRecords s = (.ok (), ({ a with memory, consolidator, accumulator } : Agent).takeRest s) := by
  simp only [takeRecords, keepUnless, andThen, hm, hk, ha]

theorem restore_ok {b' : Agent} {next : List CellState} (hlengths : a.checkLengths s = .ok ())
    (htake : a.takeParameters s = .ok b) (hb : b.handles = a.handles) (hv : Sees p.layers a.handles states)
    (hl : a.handles.length = s.states.length)
    (hstates : changeStates CellState.restore states s.states = (.ok (), next))
    (hrecords : b.takeRecords s = (.ok (), b')) : a.restore s p = (.ok (), b', p.put a.handles next) := by
  simp only [restore, hlengths, bind, Except.bind, htake, hb, restore_eq hv _ hl, hstates, hrecords]

theorem of_takeRecords (h : a.takeRecords s = (.ok (), b)) : ∃ memory consolidator accumulator,
    a.memory.restore s.memory = .ok memory ∧ a.consolidator.restore s.consolidator = .ok consolidator ∧
      a.accumulator.restore s.accumulator = .ok accumulator ∧
      b = ({ a with memory, consolidator, accumulator } : Agent).takeRest s := by
  unfold takeRecords at h
  dsimp only at h
  cases hm : a.memory.restore s.memory with
  | error e =>
    simp only [hm, keepUnless, andThen] at h
    cases h
  | ok memory =>
    cases hk : a.consolidator.restore s.consolidator with
    | error e =>
      simp only [hm, hk, keepUnless, andThen] at h
      cases h
    | ok consolidator =>
      cases ha : a.accumulator.restore s.accumulator with
      | error e =>
        simp only [hm, hk, ha, keepUnless, andThen] at h
        cases h
      | ok accumulator =>
        simp only [hm, hk, ha, keepUnless, andThen] at h
        cases h
        exact ⟨memory, consolidator, accumulator, rfl, rfl, rfl, rfl⟩

/-- Whoever was resumed took everything from the snapshot. -/
theorem of_restore {b' : Agent} {p' : StatePools} (hv : Sees p.layers a.handles states)
    (h : a.restore s p = (.ok (), b', p')) : ∃ b next, a.checkLengths s = .ok () ∧
      a.takeParameters s = .ok b ∧ changeStates CellState.restore states s.states = (.ok (), next) ∧
      b.takeRecords s = (.ok (), b') ∧ p' = p.put a.handles next := by
  have hlengths := checkLengths_of_restore (congrArg Prod.fst h)
  unfold Agent.restore at h
  rw [hlengths] at h
  cases ht : a.takeParameters s with
  | error e =>
    simp only [bind, Except.bind, ht] at h
    cases h
  | ok b =>
    simp only [bind, Except.bind, ht, (takeParameters_keeps ht).handles] at h
    by_cases hl : a.handles.length = s.states.length
    · rw [restore_eq hv _ hl] at h
      generalize changeStates CellState.restore states s.states = r at h ⊢
      obtain ⟨_ | _, next⟩ := r
      · cases h
      · obtain ⟨hout, hrest⟩ := Prod.mk.inj h
        obtain ⟨hb, hp⟩ := Prod.mk.inj hrest
        exact ⟨b, next, hlengths, rfl, rfl, Prod.ext hout hb, hp.symm⟩
    · simp only [StatePools.restore, expectSize, hl, if_false] at h
      cases h

/-- Records are put back one after the other; wherever that ends, the agent is sound. -/
theorem Sound.takeRecords (h : a.Sound c shared) (hs : s.Sound) (hp : s.profile = a.profile)
    (hlengths : b.checkLengths s = .ok ()) : (a.takeRecords s).2.Sound c shared := by
  unfold Agent.takeRecords
  dsimp only
  cases hm : a.memory.restore s.memory with
  | error e => exact h
  | ok memory =>
    obtain ⟨hmemory, -, hwidth⟩ := h.memory.restore hs.memory hm
    have h₁ : ({ a with memory } : Agent).Sound c shared :=
      ⟨h.bound, hmemory, h.baseline, h.feelings, h.levels, h.expectation, h.workingMemory, h.context, h.seed,
        h.consolidator, h.accumulator, h.overBudget⟩
    simp only [keepUnless, andThen]
    cases hk : a.consolidator.restore s.consolidator with
    | error e => exact h₁
    | ok consolidator =>
      obtain ⟨hconsolidator, -⟩ := h.consolidator.restore hk
      have h₂ : ({ a with memory, consolidator } : Agent).Sound c shared :=
        ⟨h₁.bound, h₁.memory, h₁.baseline, h₁.feelings, h₁.levels, h₁.expectation, h₁.workingMemory,
          h₁.context, h₁.seed, hconsolidator, h₁.accumulator, h₁.overBudget⟩
      dsimp only
      cases ha : a.accumulator.restore s.accumulator with
      | error e => exact h₂
      | ok accumulator =>
        have haccumulator : accumulator.Fits (countOf a.controller) := by
          rw [Accumulator.eq_of_restore h.accumulator ha]
          exact Accumulator.fits_ofEntries _ hs.accumulator
        obtain ⟨hvalues, -, hattention, hexpectation, hworking, -⟩ := checkLengths_ok.mp hlengths
        unfold Agent.takeRest
        refine ⟨h₂.bound, h₂.memory, ?_, hvalues, hattention, hexpectation, hworking, ?_, ?_, h₂.consolidator,
          haccumulator, rfl⟩
        · exact hs.baseline.trans (by rw [hp])
        · exact hs.context.trans (by rw [hwidth])
        · exact hs.seed.trans (by rw [hp])

/-- A snapshot that fits the agent's profile and binding does it no harm. -/
theorem Whole.restore (h : Whole c shared a states) (hshared : shared.Fits shared) (hs : s.Sound)
    (hp : s.profile = a.profile) (hb : s.binding = a.binding)
    (hc : a.controller = initialController a.binding shared) (hv : Sees p.layers a.handles states) :
    Upholds c shared (fun a p => a.restore s p) a p states := by
  unfold Upholds Agent.restore
  dsimp only
  cases hlengths : a.checkLengths s with
  | error e => exact ⟨.error e, a, states, by rw [put_of_sees hv]; rfl, rfl, h⟩
  | ok u =>
    cases ht : a.takeParameters s with
    | error e => exact ⟨.error e, a, states, by rw [put_of_sees hv]; rfl, rfl, h⟩
    | ok b =>
      have hwhole := h.takeParameters hshared hs hb hc ht
      have hkeep := takeParameters_keeps ht
      have hrecords := hwhole.sound.takeRecords hs (hp.trans hkeep.profile.symm) hlengths
      simp only [bind, Except.bind, hkeep.handles]
      by_cases hl : a.handles.length = s.states.length
      · have hlen := length_changeStates CellState.restore states s.states
        have hfit : StatesFit b.controller (changeStates CellState.restore states s.states).2 :=
          CellState.HasSize.restoreAll hwhole.states s.states
        rw [restore_eq hv _ hl]
        generalize changeStates CellState.restore states s.states = r at hlen hfit ⊢
        obtain ⟨_ | _, next⟩ := r
        · exact ⟨_, b, next, rfl, hlen, hwhole.sound, hfit⟩
        · refine ⟨_, _, next, rfl, hlen, hrecords, ?_⟩
          rw [(takeRecords_parameters b s).2]
          exact hfit
      · simp only [StatePools.restore, expectSize, hl, if_false]
        exact ⟨_, b, states, by rw [put_of_sees hv], rfl, hwhole⟩

/-- A snapshot of an agent with initial parameters brings nothing but these, whether it fits or not. -/
theorem restore_parameters (hshared : shared.Fits shared)
    (hc : a.controller = initialController a.binding shared)
    (hs : s.parameters = none ∨ s.parameters = some shared.flatten) :
    (a.restore s p).2.1.binding = a.binding ∧ (a.restore s p).2.1.controller = a.controller := by
  unfold Agent.restore
  cases a.checkLengths s with
  | error e => exact ⟨rfl, rfl⟩
  | ok u =>
    cases ht : a.takeParameters s with
    | error e => exact ⟨rfl, rfl⟩
    | ok b =>
      have hb : b.binding = a.binding ∧ b.controller = a.controller := by
        rcases takeParameters_cases ht with ⟨-, rfl⟩ | ⟨values, stack, stack', hvalues, hstack, hload, rfl⟩
        · exact ⟨rfl, rfl⟩
        · have hinitial : stack = shared := by
            unfold initialController at hc
            split at hc <;> rw [hstack] at hc <;> cases hc
            rfl
          have hflat : values = shared.flatten := by
            rcases hs with hs | hs <;> rw [hvalues] at hs <;> cases hs
            rfl
          rw [hinitial, hflat, hshared.load_flatten] at hload
          cases hload
          exact ⟨rfl, by rw [hstack, hinitial]⟩
      simp only [bind, Except.bind]
      generalize p.restore b.handles s.states = r
      obtain ⟨_ | _, q⟩ := r
      · exact hb
      · obtain ⟨hbinding, hcontroller⟩ := takeRecords_parameters b s
        exact ⟨hbinding.trans hb.1, hcontroller.trans hb.2⟩

/-! ### Resuming where another agent stopped -/

/-- A new agent takes over the parameters of another one with the same binding. -/
theorem Sound.takeParameters_picture (h : a.Sound c shared) (hb : b.binding = a.binding)
    (hc : b.controller = initialController b.binding shared) (states : List CellState)
    (memory : MemoryRecord) :
    b.takeParameters (a.picture states memory) = .ok { b with controller := a.controller } := by
  have hsame (hc : b.controller = a.controller) : b = { b with controller := a.controller } := by rw [← hc]
  unfold Agent.takeParameters Agent.picture
  dsimp only
  cases hbinding : a.binding with
  | perAgent =>
    obtain ⟨stack, hstack, hfits⟩ := h.bound.attached (by rw [hbinding]; simp)
    have hshared : b.controller = some shared := by
      rw [hc, hb, hbinding]
      rfl
    rw [hstack, hshared]
    simp only [if_true, Option.map_some, hfits.load_flatten, bind, Except.bind]
    rfl
  | shared =>
    refine congrArg Except.ok (hsame ?_)
    rw [hc, hb, hbinding, h.bound.shared hbinding]
    rfl
  | detached =>
    refine congrArg Except.ok (hsame ?_)
    rw [hc, hb, hbinding, h.bound.detached hbinding]
    rfl

/-- What is saved of a sound agent suits the controller that its society has. -/
theorem Whole.checkCompatible (h : Whole c shared a states) (memory : MemoryRecord) :
    (a.picture states memory).checkCompatible shared = .ok () := by
  have hversion : Snapshot.checkVersion (a.picture states memory).version = .ok () := rfl
  unfold Snapshot.checkCompatible
  simp only [hversion, bind, Except.bind]
  by_cases hb : a.binding = .detached
  · rw [if_pos (show (a.picture states memory).binding = .detached from hb)]
    rfl
  · obtain ⟨stack, hstack, hfits⟩ := h.sound.bound.attached hb
    have hinput : (a.picture states memory).inputSize = shared.inputSize := by
      simp only [picture, hstack]
      exact hfits.inputSize
    have hhidden : (a.picture states memory).hiddenSizes = shared.hiddenSizes := by
      simp only [picture, hstack]
      exact hfits.hiddenSizes
    have hcount : (a.picture states memory).effectiveCount = shared.parameterCount := by
      simp only [Snapshot.effectiveCount, picture, hstack]
      split
      · exact Stack.size_flatten_of_fits hfits.layers
      · rw [h.sound.consolidator.parameterCount, hstack]
        exact hfits.parameterCount
    have hlength : (a.picture states memory).states.length = shared.hiddenSizes.length := by
      rw [← hhidden]
      exact (List.length_map _).trans h.states.length_eq.symm
    rw [if_neg (show (a.picture states memory).binding ≠ .detached from hb)]
    simp only [hinput, hhidden, hcount, hlength, ne_eq, not_true, decide_false, Bool.or_self, if_false]
    rfl

theorem vectorSize_of_hasBuffer {slots width : Nat} (h : Memory.hasBuffer slots width = true) :
    vectorSize width = width := by
  simp only [Memory.hasBuffer, Bool.and_eq_true, decide_eq_true_eq] at h
  exact Nat.min_eq_left h.1

/-- **A new agent `b`, resumed from what was saved of `a`, is alike to it** in all that it does, and has the same
tasks. It has the same to learn from as well, unless there are more than `2 ^ 32` parameters: those of one key are
then saved as one. -/
theorem Whole.resume (h : Whole c shared a states) (hshared : shared.Fits shared)
    (hbuffer : Memory.hasBuffer c.memory.slots c.memory.width = true) (h₀ : Whole c shared b states')
    (hp : b.profile = a.profile) (hb : b.binding = a.binding)
    (hc : b.controller = initialController b.binding shared) (hv : Sees p.layers b.handles states') :
    ∃ b' next, b.restore (a.picture states a.memory.toRecord) p = (.ok (), b', p.put b.handles next) ∧
      next.length = states'.length ∧ b'.handles = b.handles ∧ Alike a b' ∧ b'.binding = a.binding ∧
      b'.consolidator = a.consolidator ∧ (countOf a.controller ≤ UInt32.size → LearnsAlike a b') ∧
      List.Forall₂ CellState.Carries states next := by
  have hs := h.sound
  have hs₀ := h₀.sound
  have hpicture : (a.picture states a.memory.toRecord).Sound :=
    hs.picture (hs.memory.record hbuffer) states
  have htake := hs.takeParameters_picture hb hc states a.memory.toRecord
  have hb₁ := h₀.takeParameters hshared hpicture hb.symm hc htake
  have hlengths : b.checkLengths (a.picture states a.memory.toRecord) = .ok () := by
    refine checkLengths_ok.mpr ⟨hs.feelings, ?_, hs.levels, hs.expectation, hs.workingMemory, ?_⟩
    · exact (congrArg Array.size hs.baseline).trans a.profile.archetype.size_baseline
    · refine hs.context.trans ((vectorSize_of_hasBuffer hbuffer).trans ?_)
      rw [Memory.width, hs₀.memory.config]
  obtain ⟨next, hnext, hcarries⟩ := CellState.restoreAll_toRecord h.states hb₁.states
  have hlen : next.length = states'.length := by
    have := length_changeStates CellState.restore states' (states.map CellState.toRecord)
    rwa [hnext] at this
  have hhandles : b.handles.length = (states.map CellState.toRecord).length := by
    rw [← hv.length_eq, List.length_map, hcarries.length_eq, hlen]
  have hmemory := hs.memory.restore_toRecord hbuffer hs₀.memory
  have hconsolidator := hs.consolidator.restore_toRecord hb₁.sound.consolidator
  have haccumulator := hs.accumulator.restore_ok hb₁.sound.accumulator
  have hrecords := takeRecords_ok (a := { b with controller := a.controller })
    (s := a.picture states a.memory.toRecord) hmemory hconsolidator haccumulator
  refine ⟨_, next, restore_ok hlengths htake rfl hv hhandles hnext hrecords, hlen, rfl, ?_, hb, rfl,
    fun hcount => ?_, hcarries⟩
  · exact ⟨hp.symm, rfl, hs.bound.outputSize.trans hb₁.sound.bound.outputSize.symm, rfl, rfl, rfl, rfl, rfl,
      rfl, rfl, rfl, hs.overBudget⟩
  · exact ⟨hb.symm, rfl, (hs.accumulator.ofEntries_toRecord hcount).symm, rfl, rfl⟩

end Agent

end NpcMind
