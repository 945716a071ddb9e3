import NpcMind.Proofs.Locality
import NpcMind.Society

/-!
# Where errors about slots come from

Two errors are about the bookkeeping of slots: a handle outlived its slot, or no slot is left for the
state of a controller. Nothing but the pools themselves raises them, so an operation on handles that are
good never fails with one.
-/

namespace NpcMind

open Outcome StatePools

/-! ### What components refuse -/

/-- Which errors a memory refuses a record with. -/
theorem Memory.failsBy_restore {P : Error → Prop} (hsize : ∀ operation m n, P (.dimension operation m n))
    (hlinks : ∀ text, P (.config text)) (m : Memory) (r : MemoryRecord) : FailsBy P (m.restore r) := by
  have hvalidate : FailsBy P (r.links.validate m.capacity) := by
    unfold Links.validate
    refine (failsBy_expectSize hsize _ _ _).bind fun _ => (failsBy_expectSize hsize _ _ _).bind fun _ => ?_
    split
    · exact failsBy_ok _
    · exact failsBy_error (hlinks _)
  unfold Memory.restore
  iterate 6 refine (failsBy_expectSize hsize _ _ _).bind fun _ => ?_
  exact hvalidate.bind fun _ => failsBy_ok _

/-- Which errors a state refuses a record with. -/
theorem CellState.failsBy_restore {P : Error → Prop} (hsize : ∀ operation m n, P (.dimension operation m n))
    (s : CellState) (r : StateRecord) : FailsBy P (s.restore r) :=
  (failsBy_expectSize hsize _ _ _).bind fun _ => (failsBy_expectSize hsize _ _ _).bind fun _ => failsBy_ok _

/-- Which errors an accumulator refuses a record with. -/
theorem Accumulator.failsBy_restore {P : Error → Prop} (hindex : ∀ i n, P (.fisherIndex i n)) (a : Accumulator)
    (r : AccumulatorRecord) : FailsBy P (a.restore r) := by
  unfold Accumulator.restore
  dsimp only
  split
  · split
    · exact failsBy_error (hindex _ _)
    · exact failsBy_ok _
  · exact failsBy_ok _

/-! ### What a consolidator refuses -/

namespace Consolidator

/-- Which errors a table is refused with. -/
theorem failsBy_validate {P : Error → Prop} (hcount : ∀ m n, P (.parameterCount m n))
    (hindex : ∀ i n, P (.fisherIndex i n)) (hfinite : ∀ site, P (.nonFinite site))
    (t : FisherTable Float32) (n : Nat) : FailsBy P (t.validate n) := by
  have hentries (bad : Bool) :
      FailsBy P (if bad then throw (.nonFinite "fisher table") else pure () : Outcome Unit) := by
    split
    · exact failsBy_error (hfinite _)
    · exact failsBy_ok _
  unfold FisherTable.validate
  dsimp only
  split
  · exact failsBy_error (hcount _ _)
  split
  · split
    · exact failsBy_error (hindex _ _)
    · exact hentries _
  · exact hentries _

/-- Which errors a record is refused with. -/
theorem failsBy_restore {P : Error → Prop} (hcount : ∀ m n, P (.parameterCount m n))
    (hindex : ∀ i n, P (.fisherIndex i n)) (hfinite : ∀ site, P (.nonFinite site))
    (hroom : ∀ n, P (.exhausted "consolidation tasks" n)) {k : Consolidator} {r : ConsolidatorRecord}
    (hrange : FailsBy P (between k.minLambda k.maxLambda r.lambda)) : FailsBy P (k.restore r) := by
  have hcheck (t : Task Float32) : FailsBy P (k.checkTask t) := by
    unfold checkTask
    dsimp only
    split
    · exact failsBy_error (hcount _ _)
    · exact failsBy_validate hcount hindex hfinite _ _
  have htasks (tasks : List (Task Float32)) : FailsBy P (tasks.forM k.checkTask) := by
    induction tasks with
    | nil => exact failsBy_ok _
    | cons t tasks ih => exact (hcheck t).bind fun _ => ih
  unfold Consolidator.restore
  dsimp only
  split
  · exact failsBy_error (hcount _ _)
  split
  · exact failsBy_error (hroom _)
  · exact (htasks _).bind fun _ => hrange.bind fun _ => failsBy_ok _

end Consolidator

/-! ### Errors about slots -/

/-- The error is about the bookkeeping of slots. -/
def Error.concernsSlots : Error → Bool
  | .staleHandle _ => true
  | .exhausted resource _ => resource == "controller state pool"
  | _ => false

/-- No failure is about the bookkeeping of slots. -/
def SlotSafe {α : Type} (x : Outcome α) : Prop := FailsBy (fun e => e.concernsSlots = false) x

namespace SlotSafe

variable {α β : Type}

theorem ok (a : α) : SlotSafe (.ok a : Outcome α) := failsBy_ok a

theorem error {e : Error} (he : e.concernsSlots = false) : SlotSafe (.error e : Outcome α) :=
  failsBy_error he

theorem bind {x : Outcome α} {f : α → Outcome β} (hx : SlotSafe x) (hf : ∀ a, SlotSafe (f a)) :
    SlotSafe (x >>= f) := FailsBy.bind hx hf

theorem map {x : Outcome α} (f : α → β) (hx : SlotSafe x) : SlotSafe (x.map f) := by
  cases x with
  | error e => exact error (hx e rfl)
  | ok a => exact ok _

theorem expectSize (operation : String) (m n : Nat) : SlotSafe (expectSize operation m n) :=
  failsBy_expectSize (fun _ _ _ => rfl) _ _ _

theorem requireRoom (m n : Nat) : SlotSafe (requireRoom m n) := failsBy_requireRoom (fun _ => rfl) _ _

/-! ### Building an agent -/

theorem takeMatrix (b : Budget) (rows cols : Nat) : SlotSafe (b.takeMatrix rows cols) := by
  unfold Budget.takeMatrix
  dsimp only
  split
  · exact error rfl
  · exact (requireRoom _ _).bind fun _ => ok _

theorem takeVectors (b : Budget) (lengths : List Nat) : SlotSafe (b.takeVectors lengths).1 := by
  induction lengths generalizing b with
  | nil => exact ok ()
  | cons n rest ih =>
    unfold Budget.takeVectors
    split
    · exact ih _
    · next h => exact error (takeMatrix b 1 n _ h)

theorem linksAllocate (slots : Nat) : SlotSafe (Links.allocate slots) :=
  (requireRoom _ _).bind fun _ => ok _

theorem memoryOfConfig (c : Config.Memory) : SlotSafe (Memory.ofConfig c) := by
  unfold Memory.ofConfig
  refine (requireRoom _ _).bind fun _ => (requireRoom _ _).bind fun _ => ?_
  dsimp only
  split
  · exact error rfl
  · exact (linksAllocate _).bind fun _ => ok _

theorem agentCharge (b : Budget) (c : Config) (outputSize finalSize : Nat) :
    SlotSafe (Agent.charge b c outputSize finalSize) := by
  have hmemory : SlotSafe (Memory.charge b c.memory) :=
    (takeMatrix _ _ _).bind fun _ => (takeMatrix _ _ _).bind fun _ => takeMatrix _ _ _
  unfold Agent.charge
  refine hmemory.bind fun b => (memoryOfConfig _).bind fun _ => ?_
  have hattention : SlotSafe (Attention.charge b).1 := takeVectors _ _
  generalize Attention.charge b = r at hattention ⊢
  obtain ⟨attention, b⟩ := r
  refine hattention.bind fun _ => ?_
  dsimp only
  generalize hrest : b.takeVectors _ = r
  obtain ⟨rest, b'⟩ := r
  refine bind ?_ fun _ => ok _
  rw [← congrArg Prod.fst hrest]
  exact takeVectors _ _

theorem between (lo hi x : Float32) : SlotSafe (Consolidator.between lo hi x) := by
  unfold Consolidator.between
  split
  · exact ok _
  · exact error rfl

theorem assemble (p : Profile) (binding : Binding) (controller : Option Stack) (handles : List Handle)
    (b : Budget) (c : Config) : SlotSafe (Agent.assemble p binding controller handles b c) := by
  unfold Agent.assemble Consolidator.ofConfig
  refine (agentCharge _ _ _ _).bind fun _ => (memoryOfConfig _).bind fun _ => ?_
  exact ((requireRoom _ _).bind fun _ => (between _ _ _).bind fun _ => ok _).bind fun _ => ok _

/-- Drawing states fails for lack of slots only if some pool is full. -/
theorem drawAll {layers : List (SlotPool CellState)} (ht : ∀ pool ∈ layers, pool.Tight)
    (hf : ∀ pool ∈ layers, pool.isFull = false) (cells : List Cell) (b : Budget) :
    SlotSafe (StatePools.drawAll layers cells b).1 := by
  induction layers generalizing cells b with
  | nil => exact ok _
  | cons pool layers ih =>
    cases cells with
    | nil => exact ok _
    | cons c cells =>
      have ih := ih (fun p hp => ht p (List.mem_cons_of_mem _ hp))
        (fun p hp => hf p (List.mem_cons_of_mem _ hp)) cells
      have hcharge := takeVectors b
        [c.hiddenSize, c.hiddenSize, c.hiddenSize, 4 * c.hiddenSize, wrap (c.inputSize + c.hiddenSize)]
      obtain ⟨h, q, hins⟩ := SlotPool.insert_ok (ht pool List.mem_cons_self) (hf pool List.mem_cons_self)
        (.initial c.inputSize c.hiddenSize)
      unfold StatePools.drawAll draw CellState.charge
      generalize b.takeVectors _ = r at hcharge ⊢
      rcases r with ⟨_ | _, b₁⟩
      · exact error (hcharge _ rfl)
      · have ih := ih b₁
        simp only [hins]
        generalize StatePools.drawAll layers cells b₁ = r at ih ⊢
        rcases r with ⟨_ | _, pools, b₂⟩
        · exact error (ih _ rfl)
        · exact ok _

theorem spawn {pools : StatePools} (ht : ∀ pool ∈ pools.layers, pool.Tight)
    (hf : ∀ pool ∈ pools.layers, pool.isFull = false) (p : Profile) (binding : Binding) (shared : Stack)
    (c : Config) : SlotSafe (Agent.spawn p binding shared pools c).1 := by
  unfold Agent.spawn
  dsimp only
  split
  · exact assemble _ _ _ _ _ _
  · unfold acquire
    cases hs : NpcMind.expectSize "state pools" pools.layers.length shared.layers.length with
    | error e => exact error (expectSize _ _ _ e hs)
    | ok _ =>
      have hdraw := drawAll ht hf shared.layers { capacity := c.limits.arenaFloats }
      dsimp only
      generalize StatePools.drawAll pools.layers shared.layers _ = r at hdraw ⊢
      rcases r with ⟨_ | handles, layers, b⟩
      · exact error (hdraw _ rfl)
      · have hass := assemble p binding (some shared) handles b c
        dsimp only
        cases h : Agent.assemble p binding (some shared) handles b c with
        | error e => exact error (hass e h)
        | ok a => exact ok a

/-! ### Acting -/

/-- A tick fails only where a precondition is broken: failures of the controller end in a reflex. -/
theorem tick_failsBy (a : Agent) (env : Surroundings) (p : StatePools) (s : Senses) (e : Encounter)
    (dt : Float32) : FailsBy (fun err => ∃ cause, err = .fault cause) (a.tick env p s e dt) := by
  have hwithin := failsBy_requireWithin (P := fun err => ∃ cause, err = .fault cause) fun c => ⟨c, rfl⟩
  have hdecide (b : Agent) (attended : Vec) (percept : Percept) :
      FailsBy (fun err => ∃ cause, err = .fault cause) (b.decide env p attended percept e) := by
    unfold Agent.decide
    split
    · exact failsBy_ok _
    · split
      · split
        · exact failsBy_error ⟨_, rfl⟩
        · exact failsBy_ok _
        · refine FailsBy.bind ?_ fun _ => failsBy_ok _
          refine ((hwithin _ _).bind fun _ => failsBy_ok _).bind fun _ => ?_
          exact ((hwithin _ _).bind fun _ => failsBy_ok _).bind fun _ => failsBy_ok _
      · exact failsBy_ok _
  have hrecollect (b : Agent) (query : Vec) :
      FailsBy (fun err => ∃ cause, err = .fault cause) (b.recollect env query) := by
    refine FailsBy.bind ((failsBy_tolerate _).bind fun found => ?_) fun context => ?_
    · cases found <;> exact failsBy_ok _
    · unfold Agent.recallGossip
      split
      · exact failsBy_ok _
      · refine (failsBy_tolerate _).bind fun found => ?_
        cases found <;> exact failsBy_ok _
  have hremember (b : Agent) (q : StatePools) (query : Vec) :
      FailsBy (fun err => ∃ cause, err = .fault cause) (b.remember q env.config env.taskId query) := by
    unfold Agent.remember
    dsimp only
    split
    · exact failsBy_ok _
    · refine ((hwithin _ _).bind fun _ => failsBy_ok _).bind fun _ => ?_
      refine (failsBy_tolerate _).bind fun stored => ?_
      split <;> exact failsBy_ok _
  unfold Agent.tick
  refine ((hwithin _ _).bind fun _ => failsBy_ok _).bind fun query => ?_
  refine (hrecollect _ query).bind fun _ => ?_
  exact (hdecide _ _ _).bind fun _ => (hremember _ _ _).bind fun _ => failsBy_ok _

theorem tick (a : Agent) (env : Surroundings) (p : StatePools) (s : Senses) (e : Encounter)
    (dt : Float32) : SlotSafe (a.tick env p s e dt) := by
  intro err h
  obtain ⟨cause, rfl⟩ := tick_failsBy a env p s e dt err h
  rfl

theorem reinforce {a : Agent} {p : StatePools} {states : List CellState}
    (hv : Sees p.layers a.handles states) (c : Config) (reward : Float32) :
    SlotSafe (a.reinforce p c reward) := by
  have hgradient : SlotSafe (a.policyGradient p c.controller.logitScale) := by
    unfold Agent.policyGradient Stack.finalGradient
    split
    · exact error rfl
    · next stack _ =>
      intro e he
      cases hl : NpcMind.expectSize "controller layers" stack.layers.length a.handles.length with
      | error _ =>
        rw [hl] at he
        cases he
        exact expectSize _ _ _ _ hl
      | ok _ =>
        have hn := eq_of_expectSize hl
        rw [hl] at he
        simp only [Bind.bind, Except.bind] at he
        split at he
        · next h _ hlast =>
          obtain ⟨s, -, hget⟩ := get_last hv hlast
          rw [hn, hget] at he
          cases he
        · cases he
          rfl
  have hpull (k : Consolidator) (current : Vec) : SlotSafe (k.penaltyGradient current) := by
    unfold Consolidator.penaltyGradient
    split
    · exact ok _
    · exact error rfl
  have hpenalty (b : Agent) : SlotSafe b.penalty := by
    unfold Agent.penalty Consolidator.penalty
    split
    · split
      · exact ok _
      · exact error rfl
    · exact ok _
  unfold Agent.reinforce
  split
  · exact error rfl
  · refine bind ?_ fun _ => ((hpull _ _).bind fun _ => ok _).bind fun _ => (hpenalty _).bind fun _ => ok _
    unfold Agent.rewardUpdates
    split
    · exact hgradient.bind fun _ => ok _
    · exact ok _

/-! ### Saving and resuming -/

theorem record (m : Memory) : SlotSafe m.record := by
  unfold Memory.record
  split
  · exact ok _
  · exact error rfl

theorem checkCompatible (s : Snapshot) (stack : Stack) : SlotSafe (s.checkCompatible stack) := by
  have hversion : SlotSafe (Snapshot.checkVersion s.version) := by
    unfold Snapshot.checkVersion
    split
    · exact ok _
    · exact error rfl
  unfold Snapshot.checkCompatible
  refine hversion.bind fun _ => ?_
  dsimp only
  split
  · exact ok _
  split
  · exact error rfl
  split
  · exact error rfl
  split
  · exact error rfl
  · exact ok _

theorem loadLayers (cells : List Cell) (values : Vec) : SlotSafe (Stack.loadLayers cells values) := by
  induction cells generalizing values with
  | nil => exact ok _
  | cons c cells ih =>
    unfold Stack.loadLayers Cell.load
    refine bind ?_ fun _ => (ih _).bind fun _ => ok _
    split
    · exact error rfl
    · exact ok _

theorem takeParameters (a : Agent) (s : Snapshot) : SlotSafe (a.takeParameters s) := by
  unfold Agent.takeParameters Stack.load
  split
  · exact ok _
  · split
    · exact error rfl
    · refine bind ?_ fun _ => ok _
      dsimp only
      split
      · exact error rfl
      · exact (loadLayers _ _).bind fun _ => ok _

theorem checkLengths (a : Agent) (s : Snapshot) : SlotSafe (a.checkLengths s) := by
  unfold Agent.checkLengths
  iterate 5 refine (expectSize _ _ _).bind fun _ => ?_
  exact expectSize _ _ _

theorem changeStates (states : List CellState) (records : List StateRecord) :
    SlotSafe (StatePools.changeStates CellState.restore states records).1 := by
  induction states generalizing records with
  | nil => exact ok _
  | cons s states ih =>
    cases records with
    | nil => exact ok _
    | cons r records =>
      have hrestore : SlotSafe (CellState.restore s r) := CellState.failsBy_restore (fun _ _ _ => rfl) s r
      unfold StatePools.changeStates
      cases h : CellState.restore s r with
      | error e => exact error (hrestore e h)
      | ok _ => exact ih records

theorem memoryRestore (m : Memory) (r : MemoryRecord) : SlotSafe (m.restore r) :=
  Memory.failsBy_restore (fun _ _ _ => rfl) (fun _ => rfl) m r

theorem consolidatorRestore (k : Consolidator) (r : ConsolidatorRecord) : SlotSafe (k.restore r) :=
  Consolidator.failsBy_restore (fun _ _ => rfl) (fun _ _ => rfl) (fun _ => rfl) (fun _ => rfl)
    (between _ _ _)

theorem accumulatorRestore (a : Accumulator) (r : AccumulatorRecord) : SlotSafe (a.restore r) :=
  Accumulator.failsBy_restore (fun _ _ => rfl) a r

theorem keepUnless {a : Agent} {part : Outcome α} (h : SlotSafe part) (put : α → Agent) :
    SlotSafe (a.keepUnless part put).1 := by
  cases part with
  | error e => exact error (h e rfl)
  | ok x => exact ok _

theorem andThen {first : Outcome Unit × Agent} {next : Agent → Outcome Unit × Agent}
    (hfirst : SlotSafe first.1) (hnext : ∀ b, SlotSafe (next b).1) :
    SlotSafe (Agent.andThen first next).1 := by
  rcases first with ⟨_ | _, b⟩
  · exact error (hfirst _ rfl)
  · exact hnext b

theorem restore {a : Agent} {p : StatePools} {states : List CellState}
    (hv : Sees p.layers a.handles states) (s : Snapshot) : SlotSafe (a.restore s p).1 := by
  have hrecords (b : Agent) : SlotSafe (b.takeRecords s).1 := by
    unfold Agent.takeRecords
    refine andThen (andThen (andThen (keepUnless (memoryRestore _ _) _) fun b => ?_) fun b => ?_)
      fun b => ok _
    · exact keepUnless (consolidatorRestore _ _) _
    · exact keepUnless (accumulatorRestore _ _) _
  have hfirst : SlotSafe (a.checkLengths s >>= fun _ => a.takeParameters s) :=
    (checkLengths a s).bind fun _ => takeParameters a s
  unfold Agent.restore
  cases h : (a.checkLengths s >>= fun _ => a.takeParameters s) with
  | error e => exact error (hfirst e h)
  | ok b =>
    obtain ⟨-, -, htake⟩ := ok_of_bind h
    simp only [(Agent.takeParameters_keeps htake).handles]
    by_cases hl : a.handles.length = s.states.length
    · have hstates := changeStates states s.states
      simp only [restore_eq hv _ hl]
      generalize StatePools.changeStates CellState.restore states s.states = r at hstates ⊢
      rcases r with ⟨_ | _, next⟩
      · exact error (hstates _ rfl)
      · exact hrecords b
    · simp only [StatePools.restore, NpcMind.expectSize, hl, if_false]
      exact error rfl

end SlotSafe

end NpcMind
