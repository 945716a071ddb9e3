import NpcMind.Proofs.FlatOrder
import NpcMind.Proofs.Resume

/-!
# Which snapshots are accepted

A snapshot is checked in many places while it is loaded: its heading against the shared controller, its
vectors against the new agent, and each record by the part that takes it over. `Snapshot.Matches` says in one
place what all of these amount to, without any of the checks. A society takes in the agent of a snapshot if
and only if the snapshot matches and there is room for the agent.

The number of parameters that a snapshot states is looked at only if it carries none.

Tables are looked at by their last entry alone, which is enough as their entries ascend; those of every
snapshot that was read do.
-/

namespace NpcMind

open StatePools Outcome

/-! ### What was read -/

namespace Codec

/-- A field that may not be left out was there and was read. -/
theorem read_of_get {α : Type} [Codec α] {e : Entries} {name : String} {a : α}
    (habsent : (absent? : Option α) = none) (h : e.get name = some a) : ∃ d, decode? d = some a := by
  unfold Entries.get at h
  split at h
  · next d _ => exact ⟨d, h⟩
  · rw [habsent] at h
    cases h

/-- Every element of a list that was read was read. -/
theorem read_of_mem {α : Type} [Codec α] {d : Document} {as : List α} (h : decode? d = some as) :
    ∀ a ∈ as, ∃ item, decode? item = some a := by
  have hitems : ∀ (items : List Document) (as : List α), items.mapM decode? = some as →
      ∀ a ∈ as, ∃ item, decode? item = some a := by
    intro items
    induction items with
    | nil =>
      intro as has a ha
      cases has
      cases ha
    | cons item rest ih =>
      intro as has a ha
      rw [List.mapM_cons] at has
      obtain ⟨first, hfirst, has⟩ := Option.bind_eq_some_iff.mp has
      obtain ⟨others, hothers, has⟩ := Option.bind_eq_some_iff.mp has
      cases has
      rcases List.mem_cons.mp ha with rfl | ha
      · exact ⟨item, hfirst⟩
      · exact ih others hothers a ha
  simp only [decode?] at h
  split at h
  · exact hitems _ as h
  · cases h

end Codec

theorem FisherTable.read {d : Document} {t : FisherTable Float32} (h : Codec.decode? d = some t) :
    ∃ d, Sparse.ofDocument? d = some t.entries := by
  simp only [Codec.decode?, Option.bind_eq_bind, Option.pure_def, Option.bind_eq_some_iff] at h
  obtain ⟨r, -, count, -, field, -, entries, hentries, h⟩ := h
  cases h
  exact ⟨field, hentries⟩

theorem Task.read {d : Document} {t : Task Float32} (h : Codec.decode? d = some t) :
    ∃ d, Codec.decode? d = some t.fisher := by
  simp only [Codec.decode?, Option.bind_eq_bind, Option.pure_def, Option.bind_eq_some_iff] at h
  obtain ⟨r, -, id, -, name, -, optimal, -, fisher, hfisher, importance, -, tick, -, h⟩ := h
  cases h
  exact Codec.read_of_get rfl hfisher

theorem ConsolidatorRecord.read {d : Document} {k : ConsolidatorRecord} (h : Codec.decode? d = some k) :
    ∃ d, Codec.decode? d = some k.tasks := by
  simp only [Codec.decode?, Option.bind_eq_bind, Option.pure_def, Option.bind_eq_some_iff] at h
  obtain ⟨r, -, count, -, lambda, -, validation, -, consolidations, -, tasks, htasks, h⟩ := h
  cases h
  exact Codec.read_of_get rfl htasks

theorem AccumulatorRecord.read {d : Document} {a : AccumulatorRecord} (h : Codec.decode? d = some a) :
    ∃ d, Sparse.ofDocument? d = some a.sums := by
  simp only [Codec.decode?, Option.bind_eq_bind, Option.pure_def, Option.bind_eq_some_iff] at h
  obtain ⟨r, -, samples, -, field, -, sums, hsums, h⟩ := h
  cases h
  exact ⟨field, hsums⟩

theorem Snapshot.read {d : Document} {s : Snapshot} (h : Snapshot.ofDocument d = .ok s) :
    (∃ d, Codec.decode? d = some s.consolidator) ∧ ∃ d, Codec.decode? d = some s.accumulator := by
  unfold ofDocument at h
  obtain ⟨_, -, h⟩ := ok_of_bind h
  obtain ⟨_, -, h⟩ := ok_of_bind h
  unfold readable at h
  split at h
  · next s' hs =>
    cases h
    -- The record itself and the sixteen fields in front of the tasks.
    iterate 17 obtain ⟨_, -, hs⟩ := Option.bind_eq_some_iff.mp hs
    obtain ⟨k, hk, hs⟩ := Option.bind_eq_some_iff.mp hs
    obtain ⟨a, ha, hs⟩ := Option.bind_eq_some_iff.mp hs
    obtain ⟨_, -, hs⟩ := Option.bind_eq_some_iff.mp hs
    obtain ⟨_, -, hs⟩ := Option.bind_eq_some_iff.mp hs
    cases hs
    exact ⟨Codec.read_of_get rfl hk, Codec.read_of_get rfl ha⟩
  · cases h

/-! ### Records that fit -/

/-- The table is about that many parameters: every entry has its place, and is finite and not negative. -/
structure FisherTable.Suits (count : Nat) (t : FisherTable Float32) : Prop where
  parameterCount : t.parameterCount = count
  places : ∀ e ∈ t.entries, e.1 < count
  values : ∀ e ∈ t.entries, e.2.isFinite = true ∧ 0 ≤ e.2

theorem Single.nonnegative_iff {x : Float32} :
    (!x.isFinite || x < 0) = false ↔ x.isFinite = true ∧ 0 ≤ x := by
  have hzero : (0 : Float32).isNaN = false := rfl
  constructor
  · intro h
    simp only [Bool.or_eq_false_iff, Bool.not_eq_false', decide_eq_false_iff_not] at h
    exact ⟨h.1, Single.le_of_not_lt hzero (isNaN_of_isFinite h.1) h.2⟩
  · rintro ⟨hfinite, hle⟩
    simp only [hfinite, Bool.not_true, Bool.false_or, decide_eq_false_iff_not]
    exact Single.not_lt_of_le hle

theorem FisherTable.validate_iff {t : FisherTable Float32} (h : Sparse.Ascending t.entries) {count : Nat} :
    t.validate count = .ok () ↔ t.Suits count := by
  have hvalues : (t.entries.any fun e => !e.2.isFinite || e.2 < 0) = false ↔
      ∀ e ∈ t.entries, e.2.isFinite = true ∧ 0 ≤ e.2 := by
    rw [List.any_eq_false]
    refine forall₂_congr fun e _ => ?_
    rw [Bool.not_eq_true, Single.nonnegative_iff]
  have hplaces := h.below_iff count
  constructor
  · intro hv
    unfold FisherTable.validate at hv
    dsimp only at hv
    split at hv
    · cases hv
    · next hcount =>
      refine ⟨Decidable.not_not.mp hcount, hplaces.mpr fun last hl => ?_, hvalues.mp ?_⟩
      · rw [hl] at hv
        dsimp only at hv
        split at hv
        · cases hv
        · next hle => exact Nat.not_le.mp hle
      · rw [← Bool.not_eq_true]
        intro hany
        rw [if_pos hany] at hv
        split at hv
        · split at hv <;> cases hv
        · cases hv
  · intro hs
    unfold FisherTable.validate
    dsimp only
    rw [if_neg fun hne => hne hs.parameterCount, hvalues.mpr hs.values]
    split
    · next i x hl =>
      rw [if_neg (Nat.not_le.mpr (hplaces.mp hs.places (i, x) hl))]
      rfl
    · rfl

/-- The record is of a consolidator of that many parameters with room for that many tasks. -/
structure ConsolidatorRecord.Suits (count maxTasks : Nat) (r : ConsolidatorRecord) : Prop where
  parameterCount : r.parameterCount = count
  room : r.tasks.length ≤ maxTasks
  optimal : ∀ t ∈ r.tasks, t.optimal.size = count
  fisher : ∀ t ∈ r.tasks, t.fisher.Suits count

theorem Consolidator.Fits.restore_iff {count : Nat} {c : Config.Consolidation} {k : Consolidator}
    (h : k.Fits count c) {r : ConsolidatorRecord} (hr : ∀ t ∈ r.tasks, Sparse.Ascending t.fisher.entries) :
    (∃ k', k.restore r = .ok k') ↔ r.Suits count c.maxTasks := by
  have htasks : r.tasks.forM k.checkTask = .ok () ↔
      ∀ t ∈ r.tasks, t.optimal.size = count ∧ t.fisher.Suits count := by
    rw [Consolidator.forM_ok]
    refine forall₂_congr fun t ht => ?_
    rw [Consolidator.checkTask_ok, h.parameterCount, FisherTable.validate_iff (hr t ht)]
  constructor
  · rintro ⟨k', hk⟩
    have hcount := (h.restore hk).2
    unfold Consolidator.restore at hk
    dsimp only at hk
    rw [if_neg fun hne => hne (hcount.trans h.parameterCount.symm)] at hk
    split at hk
    · cases hk
    · next hroom =>
      obtain ⟨_, hall, -⟩ := ok_of_bind hk
      have hall := htasks.mp hall
      exact ⟨hcount, h.maxTasks ▸ Nat.not_lt.mp hroom, fun t ht => (hall t ht).1, fun t ht => (hall t ht).2⟩
  · intro hs
    have hall := htasks.mpr fun t ht => ⟨hs.optimal t ht, hs.fisher t ht⟩
    have hroom : ¬ r.tasks.length > k.maxTasks := by
      rw [h.maxTasks]
      exact Nat.not_lt.mpr hs.room
    obtain ⟨lambda, hlambda⟩ : ∃ lambda, between k.minLambda k.maxLambda r.lambda = .ok lambda := by
      -- The range is not empty, as the consolidator's own lambda lies in it.
      have hrange := h.lambda
      rw [h.minLambda, h.maxLambda]
      unfold Consolidator.between at hrange ⊢
      split at hrange
      · next hle => exact ⟨_, if_pos hle⟩
      · cases hrange
    unfold Consolidator.restore
    dsimp only
    rw [if_neg fun hne => hne (hs.parameterCount.trans h.parameterCount.symm), if_neg hroom, hall]
    simp only [bind, Except.bind, Consolidator.setLambda, hlambda]
    exact ⟨_, rfl⟩

theorem Accumulator.restore_iff {a : Accumulator} {r : AccumulatorRecord} (hr : Sparse.Ascending r.sums) :
    (∃ a', a.restore r = .ok a') ↔ ∀ e ∈ r.sums, e.1 < a.parameterCount := by
  rw [hr.below_iff]
  unfold Accumulator.restore
  cases hlast : r.sums.getLast? with
  | none =>
    refine ⟨fun _ last h => ?_, fun _ => ⟨_, rfl⟩⟩
    cases h
  | some last =>
    obtain ⟨i, x⟩ := last
    dsimp only
    by_cases hi : a.parameterCount ≤ i
    · rw [if_pos hi]
      constructor
      · rintro ⟨a', h⟩
        cases h
      · intro h
        exact absurd (h (i, x) rfl) (Nat.not_lt.mpr hi)
    · rw [if_neg hi]
      refine ⟨fun _ last h => ?_, fun _ => ⟨_, rfl⟩⟩
      cases h
      exact Nat.not_le.mp hi

/-- What is saved of a layer of that size. -/
structure StateRecord.HasSize (n : Nat) (r : StateRecord) : Prop where
  hidden : r.hidden.size = n
  cell : r.cell.size = n

theorem CellState.restore_iff {s : CellState} {r : StateRecord} :
    (∃ s', s.restore r = .ok s') ↔ r.hidden.size = s.hidden.size ∧ r.cell.size = s.cell.size := by
  constructor
  · rintro ⟨s', hs⟩
    unfold CellState.restore at hs
    obtain ⟨_, hhidden, hs⟩ := ok_of_bind hs
    obtain ⟨_, hcell, -⟩ := ok_of_bind hs
    exact ⟨(eq_of_expectSize hhidden).symm, (eq_of_expectSize hcell).symm⟩
  · rintro ⟨hhidden, hcell⟩
    unfold CellState.restore
    rw [hhidden, hcell]
    simp only [expectSize_ok]
    exact ⟨_, rfl⟩

theorem CellState.HasSize.restore_iff {n : Nat} {s : CellState} (h : s.HasSize n) {r : StateRecord} :
    (∃ s', s.restore r = .ok s') ↔ r.HasSize n := by
  rw [CellState.restore_iff, h.hidden, h.cell]
  exact ⟨fun ⟨hhidden, hcell⟩ => ⟨hhidden, hcell⟩, fun hr => ⟨hr.hidden, hr.cell⟩⟩

theorem CellState.restoreAll_iff {sizes : List Nat} {states : List CellState}
    (h : List.Forall₂ HasSize sizes states) {records : List StateRecord}
    (hlen : records.length = sizes.length) :
    (changeStates CellState.restore states records).1 = .ok () ↔
      List.Forall₂ StateRecord.HasSize sizes records := by
  induction h generalizing records with
  | nil =>
    obtain rfl := List.length_eq_zero_iff.mp hlen
    exact iff_of_true rfl .nil
  | @cons n s sizes states hs _ ih =>
    obtain ⟨r, rest, rfl⟩ := List.exists_cons_of_length_eq_add_one hlen
    rw [List.forall₂_cons, ← hs.restore_iff, ← ih (Nat.succ.inj hlen)]
    simp only [changeStates]
    cases hr : s.restore r with
    | error e => simp
    | ok s' => simp

/-! ### Snapshots that match -/

namespace Snapshot

variable {c : Config} {shared : Stack} {s : Snapshot}

/-- The entries of all tables ascend. -/
structure Ordered (s : Snapshot) : Prop where
  tasks : ∀ t ∈ s.consolidator.tasks, Sparse.Ascending t.fisher.entries
  sums : Sparse.Ascending s.accumulator.sums

/-- Whatever a snapshot was read from, its tables ascend. -/
theorem ordered_of_ofDocument {d : Document} (h : ofDocument d = .ok s) : s.Ordered := by
  obtain ⟨⟨_, hk⟩, ⟨_, ha⟩⟩ := read h
  constructor
  · intro t ht
    obtain ⟨_, htasks⟩ := ConsolidatorRecord.read hk
    obtain ⟨_, hread⟩ := Codec.read_of_mem htasks t ht
    obtain ⟨_, hfisher⟩ := Task.read hread
    obtain ⟨_, hentries⟩ := FisherTable.read hfisher
    exact Sparse.ascending_of_ofDocument hentries
  · obtain ⟨_, hsums⟩ := AccumulatorRecord.read ha
    exact Sparse.ascending_of_ofDocument hsums

/-- What a snapshot holds has a place in a new agent with a controller of that shape. -/
structure Fills (c : Config) (shared : Stack) (s : Snapshot) : Prop where
  parameters : ∀ values, s.parameters = some values → values.size = shared.parameterCount
  states : List.Forall₂ StateRecord.HasSize shared.hiddenSizes s.states
  memory : s.memory.Suits c.memory.slots c.memory.width
  consolidator : s.consolidator.Suits shared.parameterCount c.consolidation.maxTasks
  accumulator : ∀ e ∈ s.accumulator.sums, e.1 < shared.parameterCount
  feelings : s.affect.values.size = Emotion.count
  baseline : s.affect.baseline.size = Emotion.count
  attention : s.attention.size = channelCount
  expectation : s.expectation.size = channelCount
  workingMemory : s.workingMemory.size = workingMemorySize
  context : s.longTermContext.size = c.memory.width

/-- The snapshot of an agent with a controller matches a configuration and the shared controller. -/
structure Matches (c : Config) (shared : Stack) (s : Snapshot) : Prop extends s.Fills c shared where
  version : s.version = currentVersion
  input : s.inputSize = shared.inputSize
  hidden : s.hiddenSizes = shared.hiddenSizes
  /-- Of a snapshot with parameters, the number that it states may be any. -/
  stated : s.parameters = none → s.parameterCount = shared.parameterCount

theorem checkVersion_ok {version : UInt32} : checkVersion version = .ok () ↔ version = currentVersion := by
  unfold checkVersion
  split
  · next h => exact iff_of_true rfl h
  · next h => exact ⟨(nomatch ·), fun heq => absurd heq h⟩

theorem checkCompatible_iff (hb : s.binding ≠ .detached) : s.checkCompatible shared = .ok () ↔
    s.version = currentVersion ∧ s.inputSize = shared.inputSize ∧ s.hiddenSizes = shared.hiddenSizes ∧
      s.effectiveCount = shared.parameterCount ∧ s.states.length = shared.hiddenSizes.length := by
  constructor
  · intro h
    unfold checkCompatible at h
    obtain ⟨_, hversion, h⟩ := ok_of_bind h
    rw [if_neg hb] at h
    dsimp only at h
    split at h
    · cases h
    next hshape =>
    split at h
    · cases h
    next hcount =>
    split at h
    · cases h
    next hlength =>
    simp only [ne_eq, Bool.or_eq_true, decide_eq_true_eq, not_or, Decidable.not_not] at hshape
    exact ⟨checkVersion_ok.mp hversion, hshape.1, hshape.2, Decidable.not_not.mp hcount,
      Decidable.not_not.mp hlength⟩
  · rintro ⟨hversion, hinput, hhidden, hcount, hlength⟩
    unfold checkCompatible
    rw [checkVersion_ok.mpr hversion]
    simp only [bind, Except.bind, if_neg hb, hinput, hhidden, hcount, hlength, ne_eq, not_true, decide_false,
      Bool.or_self, if_false, Bool.false_eq_true]
    rfl

/-- Of a snapshot with parameters, nobody looks at the number that it states. -/
theorem effectiveCount_eq (s : Snapshot) (n : Nat) (h : s.parameters.isSome = true) :
    ({ s with parameterCount := n } : Snapshot).effectiveCount = s.effectiveCount := by
  obtain ⟨values, hv⟩ := Option.isSome_iff_exists.mp h
  simp only [effectiveCount, hv]
  rfl

theorem matches_iff (hb : s.binding ≠ .detached) :
    s.Matches c shared ↔ s.checkCompatible shared = .ok () ∧ s.Fills c shared := by
  rw [checkCompatible_iff hb]
  constructor
  · intro h
    refine ⟨⟨h.version, h.input, h.hidden, ?_, h.states.length_eq.symm⟩, h.toFills⟩
    unfold effectiveCount
    cases hp : s.parameters with
    | none => exact h.stated hp
    | some values => exact h.parameters values hp
  · rintro ⟨⟨hversion, hinput, hhidden, hcount, -⟩, hfills⟩
    refine ⟨hfills, hversion, hinput, hhidden, fun hp => ?_⟩
    rw [effectiveCount, hp] at hcount
    exact hcount

end Snapshot

/-! ### Resuming and loading -/

namespace Agent

variable {c : Config} {shared : Stack} {a b : Agent} {p : StatePools} {s : Snapshot} {states : List CellState}

theorem takeRecords_iff : (a.takeRecords s).1 = .ok () ↔ (∃ memory, a.memory.restore s.memory = .ok memory) ∧
    (∃ k, a.consolidator.restore s.consolidator = .ok k) ∧
    ∃ sums, a.accumulator.restore s.accumulator = .ok sums := by
  constructor
  · intro h
    obtain ⟨memory, k, sums, hmemory, hk, hsums, -⟩ := of_takeRecords (b := (a.takeRecords s).2) (Prod.ext h rfl)
    exact ⟨⟨memory, hmemory⟩, ⟨k, hk⟩, ⟨sums, hsums⟩⟩
  · rintro ⟨⟨memory, hmemory⟩, ⟨k, hk⟩, ⟨sums, hsums⟩⟩
    rw [takeRecords_ok hmemory hk hsums]

theorem takeParameters_iff {inputSize : Nat} {sizes : List Nat} (hshared : shared.OfShape inputSize sizes)
    (hc : a.controller = some shared) : (∃ b, a.takeParameters s = .ok b) ↔
      ∀ values, s.parameters = some values → values.size = shared.parameterCount := by
  unfold takeParameters
  cases hp : s.parameters with
  | none =>
    refine iff_of_true ⟨a, rfl⟩ fun values h => ?_
    cases h
  | some values =>
    rw [hc]
    dsimp only
    by_cases hv : values.size = shared.parameterCount
    · obtain ⟨stack, hload, -⟩ := hshared.load_ok hv
      rw [hload]
      refine iff_of_true ⟨_, rfl⟩ fun values' h => ?_
      cases h
      exact hv
    · rw [Stack.load_error shared hv]
      refine iff_of_false ?_ fun h => hv (h values rfl)
      rintro ⟨b, h⟩
      cases h

/-- The records of a snapshot are taken over by an agent with whatever parameters. -/
theorem Sound.takeRecords_iff (h : a.Sound c shared) (hc : a.controller = some shared) (hs : s.Ordered)
    (htake : a.takeParameters s = .ok b) : (b.takeRecords s).1 = .ok () ↔
      s.memory.Suits c.memory.slots c.memory.width ∧
      s.consolidator.Suits shared.parameterCount c.consolidation.maxTasks ∧
      ∀ e ∈ s.accumulator.sums, e.1 < shared.parameterCount := by
  have hsame : b.memory = a.memory ∧ b.consolidator = a.consolidator ∧ b.accumulator = a.accumulator := by
    rcases takeParameters_cases htake with ⟨-, rfl⟩ | ⟨_, _, _, -, -, -, rfl⟩ <;> exact ⟨rfl, rfl, rfl⟩
  have hcount : countOf a.controller = shared.parameterCount := by rw [hc]; rfl
  have hconsolidator := h.consolidator
  have haccumulator := h.accumulator.size
  rw [hcount] at hconsolidator haccumulator
  have hslots : a.memory.capacity = c.memory.slots := h.memory.size
  have hwidth : a.memory.width = c.memory.width := by rw [Memory.width, h.memory.config]
  rw [Agent.takeRecords_iff, hsame.1, hsame.2.1, hsame.2.2, Memory.restore_iff, hslots, hwidth,
    hconsolidator.restore_iff hs.tasks, Accumulator.restore_iff hs.sums, Accumulator.parameterCount,
    haccumulator]

/-- A new agent is resumed from a snapshot with a state for each layer if and only if all of the snapshot has a
place in it. -/
theorem Whole.restore_iff {inputSize : Nat} {sizes : List Nat} (h : Whole c shared a states)
    (hshared : shared.OfShape inputSize sizes) (hc : a.controller = some shared)
    (hv : Sees p.layers a.handles states) (hs : s.Ordered)
    (hlength : s.states.length = shared.hiddenSizes.length) :
    (a.restore s p).1 = .ok () ↔ s.Fills c shared := by
  have hstates : List.Forall₂ CellState.HasSize shared.hiddenSizes states := by
    have := h.states
    unfold StatesFit at this
    rwa [hc] at this
  have hhandles : a.handles.length = shared.hiddenSizes.length := hv.length_eq.symm.trans hstates.length_eq.symm
  have hwidth : a.memory.width = c.memory.width := by rw [Memory.width, h.sound.memory.config]
  constructor
  · intro hr
    have hresumed : a.restore s p = (.ok (), (a.restore s p).2.1, (a.restore s p).2.2) := Prod.ext hr rfl
    obtain ⟨b, next, hlengths, htake, hchange, hrecords, -⟩ := of_restore hv hresumed
    obtain ⟨hvalues, hbaseline, hattention, hexpectation, hworking, hcontext⟩ := checkLengths_ok.mp hlengths
    obtain ⟨hmemory, hconsolidator, haccumulator⟩ :=
      (h.sound.takeRecords_iff hc hs htake).mp (congrArg Prod.fst hrecords)
    exact ⟨(takeParameters_iff hshared hc).mp ⟨b, htake⟩,
      (CellState.restoreAll_iff hstates hlength).mp (congrArg Prod.fst hchange), hmemory, hconsolidator,
      haccumulator, hvalues, hbaseline, hattention, hexpectation, hworking, hcontext.trans hwidth⟩
  · intro hf
    obtain ⟨b, htake⟩ := (takeParameters_iff hshared hc).mpr hf.parameters
    have hlengths := checkLengths_ok.mpr ⟨hf.feelings, hf.baseline, hf.attention, hf.expectation,
      hf.workingMemory, hf.context.trans hwidth.symm⟩
    have hchange := (CellState.restoreAll_iff hstates hlength).mpr hf.states
    have hrecords := (h.sound.takeRecords_iff hc hs htake).mpr ⟨hf.memory, hf.consolidator, hf.accumulator⟩
    rw [restore_ok hlengths htake (takeParameters_keeps htake).handles hv (hhandles.trans hlength.symm)
      (Prod.ext hchange rfl) (Prod.ext hrecords rfl)]

end Agent

namespace Society

variable {c : Config} {w : Society} {id : Uuid} {s : Snapshot}

theorem checkCompatible_of_load (h : (w.load s).1 = .ok id) : s.checkCompatible w.controller = .ok () := by
  unfold Society.load at h
  split at h
  · cases h
  · assumption

/-- A load succeeds if the snapshot suits the controller, its agent can be spawned, and is resumed then. -/
theorem load_iff : (w.load s).1 = .ok id ↔ s.checkCompatible w.controller = .ok () ∧
    (w.spawnWith s.profile s.binding).1 = .ok id ∧
    ((w.spawnWith s.profile s.binding).2.restore id s).1 = .ok () := by
  constructor
  · intro h
    obtain ⟨hspawn, hrestore, heq⟩ := of_load h
    have hid : s.profile.id = id := by
      rw [heq] at h
      exact Except.ok.inj h
    rw [hid] at hspawn hrestore
    exact ⟨checkCompatible_of_load h, hspawn, hrestore⟩
  · rintro ⟨hcompatible, hspawn, hrestore⟩
    rw [load_ok hcompatible hspawn hrestore]

theorem Owned.load_matches_iff (hw : w.Owned c) (hs : s.Ordered) (hb : s.binding ≠ .detached) :
    (w.load s).1 = .ok id ↔
      s.Matches c w.controller ∧ (w.spawnWith s.profile s.binding).1 = .ok id := by
  rw [load_iff, Snapshot.matches_iff hb]
  -- Up to the agent being resumed both sides say the same.
  have hresumed (hcompatible : s.checkCompatible w.controller = .ok ())
      (hspawn : (w.spawnWith s.profile s.binding).1 = .ok id) :
      ((w.spawnWith s.profile s.binding).2.restore id s).1 = .ok () ↔ s.Fills c w.controller := by
    obtain ⟨a, handles, left, ha, hass⟩ := hw.holds_spawned hspawn
    have hwhole := hw.whole_spawned hspawn hass
    have hcontroller : a.controller = some w.controller := by
      obtain ⟨_, _, _, -, -, rfl⟩ := Agent.assemble_cases hass
      exact if_neg hb
    rw [← (spawnWith_ok hspawn).1] at ha
    obtain ⟨k, hl⟩ := ha.locate
    have hlength := ((Snapshot.checkCompatible_iff hb).mp hcompatible).2.2.2.2
    rw [← hwhole.restore_iff (Stack.ofShape_ofConfig hw.stack) hcontroller ha.sees hs hlength]
    simp only [Society.restore, hl]
  constructor
  · rintro ⟨hcompatible, hspawn, hrestore⟩
    exact ⟨⟨hcompatible, (hresumed hcompatible hspawn).mp hrestore⟩, hspawn⟩
  · rintro ⟨⟨hcompatible, hfills⟩, hspawn⟩
    exact ⟨hcompatible, hspawn, (hresumed hcompatible hspawn).mpr hfills⟩

/-- The number of parameters that is stated beside parameters changes nothing. -/
theorem load_stated (w : Society) (hp : s.parameters.isSome = true) (n : Nat) :
    w.load { s with parameterCount := n } = w.load s := by
  have hcompatible : ({ s with parameterCount := n } : Snapshot).checkCompatible w.controller =
      s.checkCompatible w.controller := by
    unfold Snapshot.checkCompatible
    rw [s.effectiveCount_eq n hp]
  unfold Society.load
  rw [hcompatible]
  rfl

end Society

/-- **`load` accepts a snapshot exactly if it matches.** For a snapshot `s` of an agent that is not detached, with
tables in order: a reachable society `w` answers `load s` with `id` if and only if `s.Matches c w.controller` and
`w.spawnWith s.profile s.binding` answers `id`. If `s` carries parameters, its field `parameterCount` is not part of
that: with any other number in it, `load` does the same. -/
theorem Reachable.accepts_matching {c : Config} {w : Society} {s : Snapshot} (hw : Reachable c w)
    (hs : s.Ordered) (hb : s.binding ≠ .detached) :
    (∀ id, (w.load s).1 = .ok id ↔
      s.Matches c w.controller ∧ (w.spawnWith s.profile s.binding).1 = .ok id) ∧
    (s.parameters.isSome = true → ∀ n, w.load { s with parameterCount := n } = w.load s) :=
  ⟨fun _ => hw.owned.load_matches_iff hs hb, fun hp n => w.load_stated hp n⟩

/-- A rogue with its own parameters was saved, and the number of them in its snapshot is changed to 5: a new
society still takes it in. -/
theorem accepts_matching_misstated : ∃ w s, Reachable {} w ∧ s.Ordered ∧ s.binding ≠ .detached ∧
    w.controller.parameterCount ≠ 5 ∧ s.parameterCount = 5 ∧ s.Matches {} w.controller ∧
    (w.load s).1 = .ok ⟨1, 2⟩ := by
  obtain ⟨fresh, hfresh⟩ : ∃ fresh, Society.ofConfig {} .scalar = .ok fresh := ⟨_, rfl⟩
  obtain ⟨w, a, hw, ha, hbinding, htasks, hcount⟩ : ∃ w a, Genuine {} w ∧ w.agent ⟨1, 2⟩ = .ok a ∧
      a.binding = .perAgent ∧ a.consolidator.tasks = [] ∧ w.controller.parameterCount ≠ 5 :=
    ⟨_, _, .next (.spawnWith ⟨⟨1, 2⟩, "Vex", .rogue, none⟩ .perAgent) rfl (.start .scalar rfl), rfl, rfl, rfl,
      by decide⟩
  obtain ⟨states, hheld⟩ := hw.sound.owned.holds_agent ha
  obtain ⟨loaded, _, _, hload, -⟩ := hw.sound.load_fresh hheld hfresh (by decide)
  have hstart : Reachable {} fresh := .start _ hfresh
  generalize hs : a.picture states a.memory.toRecord = s at hload
  have hordered : s.Ordered := by
    subst hs
    refine ⟨fun t ht => ?_, Sparse.ascending_ofEntries _⟩
    rw [show (a.picture states a.memory.toRecord).consolidator.tasks = a.consolidator.tasks from rfl,
      htasks] at ht
    cases ht
  have hattached : s.binding ≠ .detached := by
    rw [← hs]
    show a.binding ≠ .detached
    rw [hbinding]
    decide
  have hparameters : s.parameters.isSome = true := by
    obtain ⟨stack, hstack, -⟩ := (hw.sound.whole _ a states hheld).sound.bound.attached (by rw [hbinding]; decide)
    rw [← hs]
    simp only [Agent.picture, hbinding, hstack, if_true, Option.map_some, Option.isSome_some]
  have hmisstated : (fresh.load { s with parameterCount := 5 }).1 = .ok ⟨1, 2⟩ := by
    rw [(Reachable.accepts_matching hstart hordered hattached).2 hparameters 5, hload]
  have hordered' : ({ s with parameterCount := 5 } : Snapshot).Ordered := ⟨hordered.tasks, hordered.sums⟩
  have hiff := (Reachable.accepts_matching hstart hordered' hattached).1 ⟨1, 2⟩
  refine ⟨fresh, _, hstart, hordered', hattached, ?_, rfl, (hiff.mp hmisstated).1, hmisstated⟩
  rwa [hw.sound.owned.controller_eq hstart.owned]

end NpcMind
