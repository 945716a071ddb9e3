import NpcMind.Proofs.Chronicles
import NpcMind.Proofs.Codecs
import NpcMind.Proofs.Finiteness
import NpcMind.Proofs.Histories
import NpcMind.Proofs.TaskList

/-!
# Snapshots as texts

A snapshot is written as a text and read back. It holds hundreds of numbers, and a text has no form for one that
is not finite. So a snapshot that a society saved is read back as it was if all its numbers are finite, and cannot
be read at all otherwise.

Nothing else stands in the way: sizes fit their words, and the tables of tasks ascend, as they were made from
samples at one time or another.
-/

namespace NpcMind

open StatePools Outcome

/-! ### Tables made from samples -/

namespace Accumulator

/-- The largest entries are in order if all of them were. -/
theorem pairwise_largest {entries : List (Nat × Float32)} (h : entries.Pairwise fun e f => e.1 ≤ f.1) (n : Nat) :
    (largest n entries).Pairwise fun e f => e.1 ≤ f.1 := by
  unfold largest
  split
  · exact h
  · exact Sparse.pairwise_sorted _

theorem mem_of_mem_largest {n : Nat} {entries : List (Nat × Float32)} {e : Nat × Float32}
    (h : e ∈ largest n entries) : e ∈ entries := by
  unfold largest at h
  split at h
  · exact h
  · exact List.mem_mergeSort.mp (List.mem_of_mem_take (List.mem_mergeSort.mp h))

/-- An entry of a table is the average of a sum, under the key of its place. -/
theorem of_mem_finish {a : Accumulator} {minFisher maxDensity : Float32} {e : Nat × Float32}
    (he : e ∈ (a.finish minFisher maxDensity).entries) :
    a.samples ≠ 0 ∧ ∃ i x, a.sums[i]? = some x ∧ minFisher < x * (1 / a.samples.toFloat32) ∧
      e = (Sparse.key i, x * (1 / a.samples.toFloat32)) := by
  unfold finish at he
  dsimp only at he
  split at he
  · cases he
  · next hsome =>
    have haverage := List.mem_mergeSort.mp (mem_of_mem_largest (Sparse.mem_of_mem_lastOfEach he))
    obtain ⟨⟨x, i⟩, hx, he⟩ := List.mem_filterMap.mp haverage
    obtain ⟨habove, he⟩ := Option.ite_none_right_eq_some.mp he
    rw [List.mk_mem_zipIdx_iff_getElem?, Array.getElem?_toList] at hx
    exact ⟨by simpa [isEmpty] using hsome, i, x, hx, habove, (Option.some.inj he).symm⟩

theorem ascending_finish (a : Accumulator) (minFisher maxDensity : Float32) :
    Sparse.Ascending (a.finish minFisher maxDensity).entries := by
  unfold finish
  dsimp only
  split
  · exact List.Pairwise.nil
  · exact Sparse.ascending_lastOfEach (pairwise_largest (Sparse.pairwise_sorted _) _)

end Accumulator

namespace Consolidator

variable {k k' : Consolidator}

/-- The tables of all tasks ascend, and nothing was validated. -/
structure Tidy (k : Consolidator) : Prop where
  tables : ∀ t ∈ k.tasks, Sparse.Ascending t.fisher.entries
  unvalidated : k.previousValidation = none

theorem Tidy.makeRoom (h : k.Tidy) : k.makeRoom.2.Tidy := by
  unfold Consolidator.makeRoom
  split
  · exact h
  · split
    · exact h
    · exact ⟨fun t ht => h.tables t ((List.eraseIdx_sublist _ _).subset ht), h.unvalidated⟩

theorem Tidy.consolidate (h : k.Tidy) {id : Uuid} {name : String} {optimal : Vec} {fisher : FisherTable Float32}
    {importance : Float32} {tick : UInt64} {pruned : Option (Task Float32)}
    (hfisher : Sparse.Ascending fisher.entries)
    (hk : k.consolidate id name optimal fisher importance tick = .ok (pruned, k')) : k'.Tidy := by
  obtain ⟨-, rfl⟩ := eq_of_consolidate hk
  have hroom := h.makeRoom
  refine ⟨?_, hroom.unvalidated⟩
  intro t ht
  rcases List.mem_append.1 ht with ht | ht
  · exact hroom.tables t ht
  · rw [List.mem_singleton.1 ht]
    exact hfisher

theorem validation_of_restore {r : ConsolidatorRecord} (h : k.restore r = .ok k') :
    k'.previousValidation = r.previousValidation := by
  unfold Consolidator.restore at h
  dsimp only at h
  split at h
  · cases h
  · split at h
    · cases h
    · obtain ⟨_, -, h⟩ := ok_of_bind h
      obtain ⟨lambda, -, h⟩ := ok_of_bind h
      cases h
      rfl

end Consolidator

namespace Agent

variable {c : Config} {events : List Event} {a : Agent}

/-- Whatever an agent has been through, its tables ascend. -/
theorem Lived.tidy (h : a.Lived c events) : a.consolidator.Tidy := by
  induction h with
  | spawned hass =>
    obtain ⟨_, _, _, -, hk, rfl⟩ := assemble_cases hass
    obtain ⟨_, -, hk⟩ := ok_of_bind hk
    obtain ⟨_, -, hk⟩ := ok_of_bind hk
    cases hk
    exact ⟨by simp, rfl⟩
  | ticked _ _ ht ih =>
    rcases (ticked_of_tick ht).estimated with heq | ⟨_, _, _, samples, minFisher, maxDensity, _, _, hk⟩
    · show Consolidator.Tidy _
      rwa [heq]
    · exact ih.consolidate (samples.ascending_finish minFisher maxDensity) hk
  | reset _ ih => exact ih
  | rewarded _ hr ih =>
    obtain ⟨_, _, rfl⟩ := of_reinforce hr
    exact ih
  | shifted _ _ ih => exact ih
  | resumed _ _ _ hv hrestore ih =>
    obtain ⟨-, -, -, hk⟩ := resumed_of_restore hv hrestore
    refine ⟨?_, ?_⟩
    · rw [Consolidator.tasks_of_restore hk]
      exact ih.tables
    · rw [Consolidator.validation_of_restore hk]
      exact ih.unvalidated

/-- The links of an agent's memory could be addressed when it was made. -/
theorem Lived.slots_lt (h : a.Lived c events) : c.memory.slots < UInt64.size := by
  have hmade : ∀ m, Memory.ofConfig c.memory = .ok m → c.memory.slots < UInt64.size := by
    intro m hm
    unfold Memory.ofConfig at hm
    obtain ⟨_, -, hm⟩ := ok_of_bind hm
    obtain ⟨_, -, hm⟩ := ok_of_bind hm
    dsimp only at hm
    split at hm
    · cases hm
    · obtain ⟨links, hlinks, -⟩ := ok_of_bind hm
      obtain ⟨_, hroom, -⟩ := ok_of_bind hlinks
      have hlt := lt_of_requireRoom hroom
      omega
  induction h with
  | spawned hass =>
    obtain ⟨_, memory, _, hm, -, -⟩ := assemble_cases hass
    exact hmade memory hm
  | ticked _ _ _ ih => exact ih hmade
  | reset _ ih => exact ih hmade
  | rewarded _ _ ih => exact ih hmade
  | shifted _ _ ih => exact ih hmade
  | resumed _ _ hass _ _ _ =>
    obtain ⟨_, memory, _, hm, -, -⟩ := assemble_cases hass
    exact hmade memory hm

end Agent

/-! ### Reading a snapshot -/

namespace Snapshot

open Codec

variable {s : Snapshot}

/-- The numbers of parameters, if there are any. -/
def parameterSingles (parameters : Option Vec) : List Float32 := parameters.elim [] Array.toList

/-- All numbers of a snapshot. -/
def singles (s : Snapshot) : List Float32 :=
  parameterSingles s.parameters ++ (s.states.flatMap StateRecord.singles ++ (s.affect.singles ++
    (s.attention.toList ++ (s.expectation.toList ++ (s.workingMemory.toList ++ (s.longTermContext.toList ++
      (s.memory.singles ++ (s.consolidator.singles ++ (s.accumulator.singles ++ [s.importanceSum])))))))))

/-- The sizes and places of a snapshot fit their words. -/
structure InWords (s : Snapshot) : Prop where
  inputSize : s.inputSize < UInt64.size
  hiddenSizes : ∀ n ∈ s.hiddenSizes, n < UInt64.size
  parameterCount : s.parameterCount < UInt64.size
  memory : s.memory.InWords
  consolidator : s.consolidator.InWords
  accumulator : Sparse.InWords s.accumulator.sums

theorem survives_parameters {parameters : Option Vec} (h : ∀ x ∈ parameterSingles parameters, Legible x) :
    Survives (∀ x ∈ parameterSingles parameters, x.isFinite = true) parameters := by
  cases parameters with
  | none => exact survives_none.congr (by simp [parameterSingles])
  | some v =>
    refine survives_some (survives_vec h) ?_
    show (Document.list (v.toList.map encode)).reread ≠ .null
    simp

theorem InWords.survives (hs : s.InWords) (h : ∀ x ∈ s.singles, Legible x) :
    Survives (∀ x ∈ s.singles, x.isFinite = true) s := by
  have hentries := Document.entries?_reread (d := encode s) ["version", "profile", "binding", "input_size",
    "hidden_sizes", "parameter_count", "parameters", "states", "affect", "attention", "expectation",
    "working_memory", "long_term_context", "sampler", "ticks", "memory", "consolidator", "accumulator",
    "writes_since_consolidation", "importance_sum"] (by decide) rfl rfl
  simp only [singles, List.forall_mem_append, List.forall_mem_singleton, List.forall_mem_flatMap] at h ⊢
  obtain ⟨hparameters, hstates, haffect, hattention, hexpectation, hworking, hcontext, hmemory, hconsolidator,
    haccumulator, himportance⟩ := h
  apply Yields.congr
  · exact (yields_of_eq hentries).bind ((survives_uint32 s.version).bind ((survives_profile s.profile).bind
      ((survives_binding s.binding).bind ((survives_nat hs.inputSize).bind
      ((survives_list fun n hn => survives_nat (hs.hiddenSizes n hn)).bind
      ((survives_nat hs.parameterCount).bind ((survives_parameters hparameters).bind
      ((survives_list fun r hr => StateRecord.survives (hstates r hr)).bind ((Affect.survives haffect).bind
      ((survives_vec hattention).bind ((survives_vec hexpectation).bind ((survives_vec hworking).bind
      ((survives_vec hcontext).bind ((survives_sampler s.sampler).bind ((survives_uint64 s.ticks).bind
      ((hs.memory.survives hmemory).bind ((hs.consolidator.survives hconsolidator).bind
      ((AccumulatorRecord.survives hs.accumulator haccumulator).bind
      ((survives_uint32 s.writesSinceConsolidation).bind ((survives_single himportance).bind
      (yields_of_eq rfl)))))))))))))))))))))
  · simp

/-- One field of a record can be read without the others. -/
theorem entries?_first {d first : Document} {name : String} {rest : List (String × Document)}
    (hd : d = .record ((name, first) :: rest)) (hrest : ∀ f ∈ rest, f.1 ≠ name) :
    d.reread.entries? [name] = some ⟨[(name, first.reread)]⟩ := by
  have hothers : (rest.map fun f => (f.1, f.2.reread)).filter (fun f => [name].contains f.1) = [] := by
    apply List.filter_eq_nil_iff.2
    intro f hf
    obtain ⟨g, hg, rfl⟩ := List.mem_map.1 hf
    simpa using hrest g hg
  rw [hd, Document.reread_record, Document.entries?, List.map_cons, List.filter_cons_of_pos (by simp), hothers]
  simp

/-- The version is found before anything else is read. -/
theorem version_reread (s : Snapshot) :
    (do (← (encode s).reread.entries? ["version"]).get "version") = some s.version := by
  rw [entries?_first (d := encode s) rfl (by simp)]
  exact (survives_uint32 s.version).value trivial

/-- **A snapshot is read back as it was if all its numbers are finite**, and cannot be read otherwise. -/
theorem InWords.ofJson_toJson (hs : s.InWords) (hversion : s.version = currentVersion)
    (h : ∀ x ∈ s.singles, Legible x) :
    ofJson s.toJson =
      if ∀ x ∈ s.singles, x.isFinite = true then .ok s else .error .unreadableDocument := by
  have hread := hs.survives h
  have hdocument : ofJson s.toJson = ofDocument (encode s).reread := by
    rw [ofJson, toJson, Document.ofLenientJson?_toJson]
    rfl
  rw [hdocument, ofDocument, version_reread, hversion]
  show readable (decode? (encode s).reread) = _
  split
  · next hfinite => rw [hread.value hfinite, readable]
  · next hfinite => rw [hread.nothing hfinite, readable]

end Snapshot

/-! ### What societies save -/

theorem Stack.room_layersFrom {c : Config.Controller} {inputSize number : Nat} {sizes : List Nat} {cells : List Cell}
    (h : layersFrom c inputSize number sizes = .ok cells) : ∀ n ∈ sizes, n < UInt64.size := by
  induction sizes generalizing inputSize number cells with
  | nil => simp
  | cons n rest ih =>
    obtain ⟨cell, hcell, h⟩ := ok_of_bind h
    obtain ⟨tail, htail, -⟩ := ok_of_bind h
    obtain ⟨-, -, hsmall⟩ := Cell.room_of_allocate hcell
    exact List.forall_mem_cons.2 ⟨by omega, ih htail⟩

theorem Stack.room_ofConfig {inputSize : Nat} {c : Config.Controller} {stack : Stack}
    (h : ofConfig inputSize c = .ok stack) : stack.inputSize = inputSize ∧ ∀ n ∈ stack.hiddenSizes, n < UInt64.size := by
  rw [hiddenSizes_ofConfig h]
  unfold ofConfig at h
  dsimp only at h
  split at h
  · cases h
  · obtain ⟨layers, hlayers, h⟩ := ok_of_bind h
    cases h
    exact ⟨rfl, room_layersFrom hlayers⟩

/-- An agent's controller is no larger than the shared one. -/
theorem Agent.Bound.inWords {c : Config} {shared : Stack} {binding : Binding} {controller : Option Stack}
    {outputSize : Nat} (h : Agent.Bound c shared binding controller outputSize) (hinput : shared.inputSize < UInt64.size)
    (hhidden : ∀ n ∈ shared.hiddenSizes, n < UInt64.size) :
    (controller.map Stack.inputSize).getD 0 < UInt64.size ∧
      ∀ n ∈ (controller.map Stack.hiddenSizes).getD [], n < UInt64.size := by
  cases hc : controller with
  | none => exact ⟨by decide, by simp⟩
  | some stack =>
    have hfits := (h.fits hc).2
    simp only [Option.map_some, Option.getD_some, hfits.inputSize, hfits.hiddenSizes]
    exact ⟨hinput, hhidden⟩

/-- The tables of a tidy consolidator fit their words if its parameters can be counted in 32 bits. -/
theorem Consolidator.Tidy.inWords {k : Consolidator} (h : k.Tidy) {count : Nat} {c : Config.Consolidation}
    (hfits : k.Fits count c) (hcount : count ≤ UInt32.size) : k.toRecord.InWords := by
  have hlt : count < UInt64.size := Nat.lt_of_le_of_lt hcount (by decide)
  have hsuits : ∀ t ∈ k.tasks, t.fisher.Suits count := by
    intro t ht
    exact (FisherTable.validate_iff (h.tables t ht)).1 (hfits.tasks t ht).2
  refine ⟨?_, ?_, ?_, h.unvalidated⟩
  · show k.parameterCount < UInt64.size
    rwa [hfits.parameterCount]
  · intro t ht
    rwa [(hsuits t ht).parameterCount]
  · intro t ht
    exact ⟨h.tables t ht, fun e he => Nat.lt_of_lt_of_le ((hsuits t ht).places e he) hcount⟩

theorem Accumulator.inWords (a : Accumulator) : Sparse.InWords a.toRecord.sums := by
  refine ⟨?_, fun e he => ?_⟩
  · rw [toRecord_sums]
    exact Sparse.ascending_ofEntries _
  · obtain ⟨i, -, -, hkey⟩ := of_mem_toRecord he
    rw [hkey]
    exact Sparse.key_lt i

theorem Memory.Fits.inWords {m : Memory} {c : Config.Memory} (h : m.Fits c) (hslots : c.slots < UInt64.size)
    (hwidth : c.width < UInt64.size) : m.toRecord.InWords := by
  refine ⟨?_, ?_, ?_⟩
  · show m.slots.size < UInt64.size
    rwa [h.size]
  · show m.config.width < UInt64.size
    rwa [h.config]
  · show m.links.Within m.slots.size
    rw [h.size]
    exact h.links

/-- Whatever a society saves fits its words, given that the sizes it was set up with do. -/
theorem Genuine.inWords {c : Config} {w : Society} {id : Uuid} {s : Snapshot} (hw : Genuine c w)
    (hs : w.save id = .ok s) (hwidth : c.memory.width < UInt64.size)
    (hcount : w.controller.parameterCount ≤ UInt32.size) : s.InWords ∧ s.version = Snapshot.currentVersion := by
  obtain ⟨a, ha, -⟩ := ok_of_bind hs
  obtain ⟨states, ha⟩ := hw.sound.owned.holds_agent ha
  obtain ⟨memory, hm, rfl⟩ := ha.of_save hs
  obtain ⟨events, hlived⟩ := hw.experienced.holds id a states ha
  have hsound := (hw.sound.whole id a states ha).sound
  obtain ⟨hinput, hhidden⟩ := Stack.room_ofConfig hw.sound.owned.stack
  have hwidth' : w.controller.inputSize < UInt64.size := by
    rw [hinput]
    exact Nat.mod_lt _ (by decide)
  obtain ⟨hinputs, hlayers⟩ := hsound.bound.inWords hwidth' hhidden
  have hmemory : memory = a.memory.toRecord := (Memory.of_record hm).2
  have hsmall : Agent.countOf a.controller ≤ UInt32.size := Nat.le_trans hsound.bound.countOf_le hcount
  refine ⟨⟨hinputs, hlayers, ?_, ?_, hlived.tidy.inWords hsound.consolidator hsmall,
    a.accumulator.inWords⟩, rfl⟩
  · show a.consolidator.parameterCount < UInt64.size
    rw [hsound.consolidator.parameterCount]
    exact Nat.lt_of_le_of_lt hsmall (by decide)
  · show memory.InWords
    rw [hmemory]
    exact hsound.memory.inWords hlived.slots_lt hwidth

/-! ### New agents -/

theorem Vec.eq_zero_of_mem {n : Nat} {x : Float32} (h : x ∈ (Vec.zeros n).toList) : x = 0 :=
  (Array.mem_replicate.1 (Array.mem_toList_iff.1 h)).2

/-- The numbers of an empty memory are zero. -/
theorem Memory.singles_empty (c : Config.Memory) : ∀ x ∈ (empty c).toRecord.singles, x = 0 := by
  have hslot : ∀ t ∈ (empty c).slots, t = blank c.slots c.width := fun t ht => (Array.mem_replicate.1 ht).2
  have hcontents : ∀ x ∈ (empty c).toRecord.contents.toList, x = 0 := by
    show ∀ x ∈ ((empty c).slots.foldl (fun acc t => acc ++ t.content) #[]).toList, x = 0
    rw [← Array.foldl_toList, Layout.toList_foldl_append Trace.content, List.nil_append]
    intro x hx
    obtain ⟨t, ht, hx⟩ := List.mem_flatMap.1 hx
    rw [hslot t (Array.mem_toList_iff.1 ht), blank] at hx
    dsimp only at hx
    split at hx
    · exact Vec.eq_zero_of_mem hx
    · cases hx
  have hfield : ∀ f : Trace → Float32, f (blank c.slots c.width) = 0 → ∀ x ∈ ((empty c).slots.map f).toList, x = 0 := by
    intro f hf x hx
    obtain ⟨t, ht, rfl⟩ := Array.mem_map.1 (Array.mem_toList_iff.1 hx)
    rw [hslot t ht, hf]
  simp only [MemoryRecord.singles, List.forall_mem_append]
  exact ⟨hcontents, hfield Trace.usage rfl, hfield Trace.importance rfl⟩

namespace Agent

/-- The numbers of a new agent without parameters of its own come from its archetype and its configuration. -/
theorem singles_of_assemble {p : Profile} {binding : Binding} {shared : Stack} {handles : List Handle} {left : Budget}
    {c : Config} {a : Agent} (h : assemble p binding (initialController binding shared) handles left c = .ok a)
    (hb : binding ≠ .perAgent) :
    ∀ x ∈ (a.picture (initialStates binding shared) a.memory.toRecord).singles,
      x = 0 ∨ x = p.archetype.focus.2 ∨ x ∈ p.archetype.baseline.toList ∨
        Consolidator.between c.consolidation.minLambda c.consolidation.maxLambda c.consolidation.lambda = .ok x := by
  obtain ⟨budget, memory, k, hm, hk, rfl⟩ := assemble_cases h
  obtain rfl := Memory.eq_empty_of_ofConfig hm
  obtain ⟨_, -, hk⟩ := ok_of_bind hk
  obtain ⟨lambda, hlambda, hk⟩ := ok_of_bind hk
  cases hk
  have hstates : ∀ s ∈ initialStates binding shared, ∀ x ∈ s.toRecord.singles, x = 0 := by
    unfold initialStates
    split
    · simp
    · intro s hs x hx
      obtain ⟨cell, -, rfl⟩ := List.mem_map.1 hs
      rcases List.mem_append.1 hx with hx | hx <;> exact Vec.eq_zero_of_mem hx
  have hsums : ∀ n, ∀ x ∈ (Accumulator.ofCount n).toRecord.singles, x = 0 := by
    intro n x hx
    obtain ⟨e, he, rfl⟩ := List.mem_map.1 hx
    obtain ⟨i, hi, -⟩ := Accumulator.of_mem_toRecord he
    exact Vec.eq_zero_of_mem (Array.mem_toList_iff.2 (Array.mem_of_getElem? hi))
  have hlevels : ∀ x ∈ (Attention.initial p.archetype).levels.toList, x = p.archetype.focus.2 ∨ x = 0 := by
    intro x hx
    obtain ⟨i, -, rfl⟩ := Array.mem_map.1 (Array.mem_toList_iff.1 hx)
    split
    · exact .inl rfl
    · exact .inr rfl
  simp only [Snapshot.singles, List.forall_mem_append, List.forall_mem_singleton, List.forall_mem_flatMap, picture,
    List.forall_mem_map, if_neg hb]
  refine ⟨by simp [Snapshot.parameterSingles], ?_, ?_, ?_, ?_, ?_, ?_, ?_, ?_, ?_, .inl trivial⟩
  · exact fun s hs x hx => .inl (hstates s hs x hx)
  · simp only [Affect.singles, List.forall_mem_append, List.forall_mem_singleton]
    exact ⟨fun x hx => .inr (.inr (.inl hx)), fun x hx => .inr (.inr (.inl hx)), .inl rfl⟩
  · intro x hx
    rcases hlevels x hx with h | h
    · exact .inr (.inl h)
    · exact .inl h
  · exact fun x hx => .inl (Vec.eq_zero_of_mem hx)
  · exact fun x hx => .inl (Vec.eq_zero_of_mem hx)
  · exact fun x hx => .inl (Vec.eq_zero_of_mem hx)
  · exact fun x hx => .inl (Memory.singles_empty c.memory x hx)
  · simp only [ConsolidatorRecord.singles, List.forall_mem_cons]
    exact ⟨.inr (.inr (.inr hlambda)), by simp [Consolidator.toRecord]⟩
  · exact fun x hx => .inl (hsums _ x hx)

end Agent

/-! ### The time since a conversation -/

namespace Affect

theorem sinceInteraction_put (f : Affect) (e : Emotion) (x : Float32) :
    (f.put e x).sinceInteraction = f.sinceInteraction := rfl

theorem sinceInteraction_wait (f : Affect) (dt : Float32) : (f.wait dt).sinceInteraction = f.sinceInteraction + dt := by
  unfold wait
  dsimp only
  split <;> rfl

theorem sinceInteraction_endure (f : Affect) (a : Archetype) (s : Stimulus) (dt : Float32) :
    (f.endure a s dt).sinceInteraction = f.sinceInteraction := by
  have hcombat : (if s.combat > 0.5 then
      if a.relishesCombat then (f.raise .fear (0.3 * dt)).raise .joy (0.12 * dt)
      else (f.raise .fear (0.3 * dt)).raise .fear (0.18 * dt)
    else f).sinceInteraction = f.sinceInteraction := by
    split
    · split <;> rfl
    · rfl
  unfold endure
  dsimp only
  split
  · exact hcombat
  · exact hcombat

theorem sinceInteraction_observe (f : Affect) (s : Stimulus) :
    (f.observe s).confine.sinceInteraction = f.sinceInteraction := by
  unfold confine observe refreshStatus
  simp only [sinceInteraction_put]

/-- Out of conversation, all the time that passes is added up. -/
theorem sinceInteraction_feel (f : Affect) (a : Archetype) {s : Stimulus} (hs : s.inConversation = false)
    (retention dt : Float32) : (f.feel a s retention dt).sinceInteraction =
      f.sinceInteraction + if dt.isFinite then Single.larger dt 0 else 0 := by
  unfold feel
  dsimp only
  generalize (if dt.isFinite then Single.larger dt 0 else 0) = dt
  rw [sinceInteraction_observe, sinceInteraction_endure, if_neg (by simp [hs])]
  exact sinceInteraction_wait _ dt

end Affect

theorem Genuine.parameterCount_le_of_default {w : Society} (hw : Genuine {} w) :
    w.controller.parameterCount ≤ UInt32.size := by
  obtain ⟨stack, hstack, hsmall⟩ : ∃ stack, Stack.ofConfig (controllerInputWidth 64) {} = .ok stack ∧
      stack.parameterCount ≤ UInt32.size := ⟨_, rfl, by decide⟩
  rwa [← Except.ok.inj (hstack.symm.trans hw.sound.owned.stack)]

/-- Two ticks of `3e38` seconds out of conversation are an infinite time. -/
theorem Society.Awake.waits_endlessly {c : Config} {id : Uuid} {w : Society} {a : Agent} {states : List CellState}
    (hawake : Awake c id w a states) (hnew : a.ticks = 0 ∧ a.affect.sinceInteraction = 0) :
    ∃ w' b next, Awake c id w' b next ∧ b.ticks = 2 ∧ b.affect.sinceInteraction.isFinite = false := by
  obtain ⟨b₁, next₁, ht₁, -, hawake₁, -⟩ := hawake.tick default default 3e38 default
  obtain ⟨b₂, next₂, ht₂, -, hawake₂, -⟩ := hawake₁.tick default default 3e38 default
  have hticked₁ := Agent.ticked_of_tick ht₁
  have hticked₂ := Agent.ticked_of_tick ht₂
  refine ⟨_, _, next₂, hawake₂, ?_, ?_⟩
  · show b₂.ticks = 2
    rw [hticked₂.ticks]
    show b₁.ticks + 1 = 2
    rw [hticked₁.ticks, hnew.1]
    rfl
  · show b₂.affect.sinceInteraction.isFinite = false
    rw [hticked₂.affect, Affect.sinceInteraction_feel _ _ rfl]
    show (b₁.affect.sinceInteraction + _).isFinite = false
    rw [hticked₁.affect, Affect.sinceInteraction_feel _ _ rfl, hnew.2]
    decide +kernel

/-! ### Texts -/

/-- **A saved snapshot is read back from its text if and only if all its numbers are finite.** For the snapshot `s`
that a genuine society saves of the agent `id`, `Snapshot.ofJson s.toJson` is `s` if every number of `s.singles` is
finite, and the error on unreadable documents otherwise. Whatever `s'` is read, every society `w'` answers `load s'` as
it answers `load s`. Granted by `hlegible`: a finite number of `s` is read back from its own text. The width of the
memory and the number of parameters fit their words. -/
theorem Genuine.snapshot_text {c : Config} {w : Society} {id : Uuid} {s : Snapshot} (hw : Genuine c w)
    (hs : w.save id = .ok s) (hwidth : c.memory.width < UInt64.size)
    (hcount : w.controller.parameterCount ≤ UInt32.size) (hlegible : ∀ x ∈ s.singles, Codec.Legible x) :
    Snapshot.ofJson s.toJson =
        (if ∀ x ∈ s.singles, x.isFinite = true then .ok s else .error .unreadableDocument) ∧
      ∀ (w' : Society) (s' : Snapshot), Snapshot.ofJson s.toJson = .ok s' → w'.load s' = w'.load s := by
  obtain ⟨hwords, hversion⟩ := hw.inWords hs hwidth hcount
  have hread := hwords.ofJson_toJson hversion hlegible
  refine ⟨hread, ?_⟩
  intro w' s' hs'
  rw [hread] at hs'
  split at hs'
  · rw [Except.ok.inj hs']
  · cases hs'

/-- A rogue that nobody talks to. As it was spawned, all its numbers are finite and read back, and so is its
snapshot. After two ticks of `3e38` seconds it has waited for an infinite time, and its text is not read back. The
numbers of that tick come from `Single.tanh` and `Single.pow`, which are not evaluated in proofs, so that the finite
ones are read back is left as a premise there. -/
theorem snapshot_text_before_and_after_waiting : ∃ w s w' s',
    (Genuine {} w ∧ w.save ⟨1, 2⟩ = .ok s ∧ s.ticks = 0 ∧ (∀ x ∈ s.singles, Codec.Legible x) ∧
      Snapshot.ofJson s.toJson = .ok s) ∧
    (Genuine {} w' ∧ w'.save ⟨1, 2⟩ = .ok s' ∧ s'.ticks = 2 ∧
      ((∀ x ∈ s'.singles, Codec.Legible x) → Snapshot.ofJson s'.toJson = .error .unreadableDocument)) := by
  obtain ⟨w₀, hw₀, hspawn⟩ : ∃ w₀, Native {} w₀ ∧
      (w₀.spawnWith ⟨⟨1, 2⟩, "Vex", .rogue, none⟩ .shared).1 = .ok ⟨1, 2⟩ := ⟨_, .start .scalar rfl, rfl⟩
  have hsteady := hw₀.genuine.steady rfl (by decide) (by decide)
  obtain ⟨a, handles, left, hheld, hass⟩ := hw₀.genuine.sound.owned.holds_spawned hspawn
  obtain ⟨_, _, _, _, hawake, -⟩ := hw₀.awake hsteady (by decide) hspawn
  obtain ⟨rfl, rfl⟩ := hheld.unique hawake.holds
  have hbaseline : ∀ x ∈ Archetype.rogue.baseline.toList, Codec.Legible x ∧ x.isFinite = true := by decide +kernel
  have hnumbers : ∀ x ∈ (a.picture (Agent.initialStates .shared w₀.controller) a.memory.toRecord).singles,
      Codec.Legible x ∧ x.isFinite = true := by
    intro x hx
    rcases Agent.singles_of_assemble hass (by decide) x hx with rfl | rfl | hx | hx
    · decide +kernel
    · decide +kernel
    · exact hbaseline x hx
    · cases hx
      decide +kernel
  have hnew : a.ticks = 0 ∧ a.affect.sinceInteraction = 0 := by
    obtain ⟨_, _, _, -, -, rfl⟩ := Agent.assemble_cases hass
    exact ⟨rfl, rfl⟩
  obtain ⟨w', b, next, hawake', hticks, hwait⟩ := hawake.waits_endlessly hnew
  have hw := hawake.native.genuine
  have hw' := hawake'.native.genuine
  have hs := hw.sound.save_eq hawake.holds (by decide)
  have hs' := hw'.sound.save_eq hawake'.holds (by decide)
  refine ⟨_, _, w', _, ⟨hw, hs, hnew.1, fun x hx => (hnumbers x hx).1, ?_⟩, hw', hs', hticks, fun hlegible => ?_⟩
  · rw [(hw.snapshot_text hs (by decide) hw.parameterCount_le_of_default fun x hx => (hnumbers x hx).1).1,
      if_pos fun x hx => (hnumbers x hx).2]
  · rw [(hw'.snapshot_text hs' (by decide) hw'.parameterCount_le_of_default hlegible).1, if_neg]
    intro hfinite
    have hmem : b.affect.sinceInteraction ∈ (b.picture next b.memory.toRecord).singles := by
      simp [Snapshot.singles, Affect.singles, Agent.picture]
    rw [hfinite _ hmem] at hwait
    cases hwait

end NpcMind
