import NpcMind.Proofs.Acceptance
import NpcMind.Proofs.SlotErrors
import NpcMind.Proofs.Writes

/-!
# Putting saved components back

A memory, the state of a layer and an accumulator take over what was saved only after they have looked at all of it,
so a record that is refused changes nothing. What they look at is sizes and ranges: the links of a memory may lead in
circles, to free slots, or one way only. That is enough. Every slot that a link leads to is there, cutting and
appending links keeps it so, and a walk through them stops after as many slots as there are.

A memory without a buffer for its contents is the exception. It accepts a record of its shape, but can neither be
saved again nor written.
-/

namespace NpcMind

open Outcome

/-! ### As a whole or not at all -/

/-- Whether a component took over a record, and the component afterwards: as it was put back, or as it was. -/
def takeOver {σ : Type} (s : σ) : Outcome σ → Outcome Unit × σ
  | .ok s' => (.ok (), s')
  | .error e => (.error e, s)

/-- Components take over the records that suit them. Every other one is refused, by an error that breaks nothing, and
leaves the component alone. -/
structure Atomic {σ ρ : Type} (restore : σ → ρ → Outcome σ) (Suits : σ → ρ → Prop) (s : σ) (r : ρ) : Prop where
  accepts : (takeOver s (restore s r)).1 = .ok () ↔ Suits s r
  refuses : ∀ e, (takeOver s (restore s r)).1 = .error e →
    (takeOver s (restore s r)).2 = s ∧ ∀ cause, e ≠ .fault cause

theorem atomic_of_failsBy {σ ρ : Type} {restore : σ → ρ → Outcome σ} {Suits : σ → ρ → Prop} {s : σ} {r : ρ}
    (haccepts : (∃ s', restore s r = .ok s') ↔ Suits s r)
    (hrefuses : FailsBy (fun e => ∀ cause, e ≠ .fault cause) (restore s r)) : Atomic restore Suits s r := by
  cases h : restore s r with
  | ok s' =>
    refine ⟨?_, fun e he => ?_⟩
    · rw [h]
      exact iff_of_true rfl (haccepts.mp ⟨s', h⟩)
    · rw [h] at he
      cases he
  | error e =>
    refine ⟨?_, fun e' he => ?_⟩
    · rw [h, ← haccepts, h]
      exact iff_of_false (by simp [takeOver]) (by simp)
    · rw [h] at he ⊢
      cases he
      exact ⟨rfl, hrefuses e h⟩

/-! ### Walks -/

namespace Links

variable {l : Links} {slots slot n : ℕ}

theorem Within.follow (h : l.Within slots) (slot : ℕ) (d : Direction) : inRange slots (l.follow slot d) = true := by
  cases d with
  | forward => exact inRange_join h.next slot
  | backward => exact inRange_join h.prev slot

/-- A walk back leads through slots that are there, however the links lead. -/
theorem Within.backFrom_ok (h : l.Within slots) {start : Option ℕ} (hstart : inRange slots start = true) :
    ∃ walk, l.backFrom n start = .ok walk ∧ walk.length ≤ n ∧ ∀ slot ∈ walk, slot < slots := by
  induction n generalizing start with
  | zero => exact ⟨[], rfl, le_rfl, by simp⟩
  | succ n ih =>
    cases start with
    | none => exact ⟨[], rfl, Nat.zero_le _, by simp⟩
    | some slot =>
      have hslot : slot < slots := of_decide_eq_true hstart
      obtain ⟨walk, hwalk, hlength, hwithin⟩ := ih (h.follow slot .backward)
      refine ⟨slot :: walk, ?_, Nat.succ_le_succ hlength, ?_⟩
      · rw [backFrom, look_eq (h.prev_size.symm ▸ hslot)]
        exact congrArg (Except.map (slot :: ·)) hwalk
      · rintro s (_ | ⟨_, hs⟩)
        · exact hslot
        · exact hwithin s hs

theorem Within.recent_ok (h : l.Within slots) :
    ∃ walk, l.recent = .ok walk ∧ walk.length ≤ slots ∧ ∀ slot ∈ walk, slot < slots := by
  rw [recent, h.prev_size]
  exact h.backFrom_ok h.last

end Links

/-! ### Memories whose links are in range -/

namespace Memory

variable {c : Config.Memory} {m m' : Memory} {r : MemoryRecord} {n : ℕ}

/-- The memory is of that configuration with that many slots, and its links lead to slots. -/
structure Ranged (c : Config.Memory) (n : ℕ) (m : Memory) : Prop where
  config : m.config = c
  capacity : m.capacity = n
  links : m.links.Within n

theorem Ranged.width (h : m.Ranged c n) : m.width = c.width := congrArg Config.Memory.width h.config

/-- Whether there is a buffer depends on the shape alone. -/
theorem isBacked_eq (m : Memory) : m.isBacked = (decide (m.capacity = 0) || hasBuffer m.capacity m.width) := rfl

theorem Ranged.isBacked (h : m.Ranged c n) : m.isBacked = (decide (n = 0) || hasBuffer n c.width) := by
  rw [isBacked_eq, h.capacity, h.width]

theorem Ranged.hold {slot : ℕ} {value : Vec} {strength : Float32} {links : Links} (h : m.Ranged c n)
    (hlinks : links.Within n) : (m.hold slot value strength links).Ranged c n where
  config := h.config
  capacity := capacity_hold.trans h.capacity
  links := hlinks

/-- A memory with slots and a buffer stores whatever has its width. -/
theorem Ranged.write_some (h : m.Ranged c n) (hb : m.isBacked = true) (hpos : 0 < n) {value : Vec}
    (hv : value.size = c.width) (strength : Float32) :
    ∃ stored m', m.write value strength = .ok (some stored, m') ∧ stored.slot < n ∧ m'.Ranged c n ∧
      m'.writes = m.writes + 1 := by
  obtain ⟨slot, t, htarget, hchooses⟩ := target?_spec (h.capacity.symm ▸ hpos)
  have hslot : slot < n := h.capacity ▸ target?_lt htarget
  obtain ⟨links, hlinks⟩ := h.links.recordWrite_ok hslot
  exact ⟨_, _, write_of_target (hv.trans h.width.symm) hb htarget hchooses.here hlinks, hslot,
    h.hold (h.links.recordWrite hlinks), rfl⟩

theorem Ranged.write_none (h : m.Ranged c 0) {value : Vec} (hv : value.size = c.width) (strength : Float32) :
    m.write value strength = .ok (none, m) := by
  simp only [write, hv.trans h.width.symm, expectSize_ok, target?_eq_none h.capacity, bind, Except.bind]
  rfl

theorem Ranged.write_unbacked (h : m.Ranged c n) (hb : m.isBacked = false) {value : Vec} (hv : value.size = c.width)
    (strength : Float32) : m.write value strength = .error .outOfBounds := by
  have hpos : 0 < m.capacity := by
    by_contra hzero
    rw [isBacked_eq, Nat.eq_zero_of_not_pos hzero] at hb
    cases hb
  obtain ⟨slot, t, htarget, -⟩ := target?_spec hpos
  simp only [write, hv.trans h.width.symm, expectSize_ok, htarget, hb, bind, Except.bind]
  rfl

/-- Without a buffer, nothing can be compared with what an occupied slot holds. -/
theorem Ranged.read_unbacked (h : m.Ranged c n) (hb : m.isBacked = false) (hm : m.isEmpty = false) (b : Backend)
    {query : Vec} (hq : query.size = c.width) :
    m.read b query c.width = .error .outOfBounds ∧ m.addressing b query n = .error .outOfBounds := by
  have hcontents : m.checkContents = .error .outOfBounds := by simp [Memory.checkContents, hb, hm]
  simp only [Memory.read, addressing, checkRead, h.width, h.capacity, hq, expectSize_ok, hcontents, bind, Except.bind,
    and_self]

/-- A match leads to a slot that is there. -/
theorem Ranged.readLinked_ok (h : m.Ranged c n) (hb : m.isBacked = true) (b : Backend) {query : Vec}
    (hq : query.size = c.width) (d : Direction) :
    ∃ found, m.readLinked b query d c.width = .ok found ∧ ∀ slot ∈ found.slot, slot < n := by
  have hnothing : ∀ slot ∈ m.nothing.slot, slot < n := by simp [nothing]
  simp only [readLinked, checkRead, checkContents_ok (.inl hb), h.width, hq, expectSize_ok, bind, Except.bind]
  split
  · exact ⟨_, rfl, hnothing⟩
  split
  · exact ⟨_, rfl, hnothing⟩
  · next anchor score _ =>
    have hrange := h.links.follow anchor d
    split
    · exact ⟨_, rfl, hnothing⟩
    · next slot hslot =>
      rw [hslot] at hrange
      have hlt : slot < n := of_decide_eq_true hrange
      have hhere : slot < m.slots.size := Nat.lt_of_lt_of_eq hlt h.capacity.symm
      have hcontent : m.content? slot = .ok m.slots[slot].content := by simp [content?, hb, hhere]
      rw [hcontent]
      refine ⟨_, rfl, ?_⟩
      rintro _ ⟨⟩
      exact hlt

theorem Ranged.addressing_ok (h : m.Ranged c n) (hb : m.isBacked = true) (b : Backend) {query : Vec}
    (hq : query.size = c.width) : ∃ shares, m.addressing b query n = .ok shares ∧ shares.size = n := by
  simp only [addressing, checkContents_ok (.inl hb), h.width, h.capacity, hq, expectSize_ok, bind, Except.bind]
  split
  · exact ⟨_, rfl, Array.size_replicate⟩
  · refine ⟨_, rfl, ?_⟩
    simp only [Array.size_map]
    exact h.capacity

theorem Ranged.clear (h : m.Ranged c n) : m.clear.Ranged c n where
  config := h.config
  capacity := Array.size_replicate.trans h.capacity
  links := by
    show m.links.clear.Within n
    rw [h.links.clear]
    exact Links.within_ofSize n

/-! ### Records -/

theorem ranged_put (h : r.Suits m.capacity m.width) : (m.put r).Ranged m.config m.capacity where
  config := rfl
  capacity := m.capacity_put r
  links := h.links

theorem map_range_getD {α : Type} (xs : Array α) (d : α) : (Array.range xs.size).map (fun i => xs.getD i d) = xs := by
  refine Array.ext (by simp) fun i hi hi' => ?_
  simp [hi']

/-- Rows that were cut out one after the other make up the whole again. -/
theorem foldl_rows {α : Type} (xs : Array α) (w n : ℕ) :
    (List.range n).foldl (fun acc i => acc ++ xs.extract (i * w) ((i + 1) * w)) #[] = xs.extract 0 (n * w) := by
  induction n with
  | zero => simp
  | succ n ih =>
    have hle : n * w ≤ (n + 1) * w := Nat.mul_le_mul_right w (Nat.le_succ n)
    rw [List.range_succ, List.foldl_append, ih, List.foldl_cons, List.foldl_nil, Array.extract_append_extract,
      Nat.zero_min, max_eq_right hle]

theorem map_occupied_put (h : r.Suits m.capacity m.width) : (m.put r).slots.map Trace.occupied = r.occupied := by
  simp only [put, Array.map_map, ← h.occupied]
  exact map_range_getD r.occupied false

theorem isEmpty_put (h : r.Suits m.capacity m.width) (hoccupied : true ∈ r.occupied) : (m.put r).isEmpty = false := by
  rw [← map_occupied_put h] at hoccupied
  obtain ⟨t, ht, htrue⟩ := Array.mem_map.mp hoccupied
  rw [isEmpty, Array.any_eq_true'.mpr ⟨t, ht, htrue⟩]
  rfl

/-- **A memory with a buffer saves what was put into it.** -/
theorem toRecord_put (h : r.Suits m.capacity m.width) (hb : m.isBacked = true) : (m.put r).toRecord = r := by
  have hsize : r.contents.size = m.capacity * m.width := by
    rw [h.contents]
    rcases Bool.or_eq_true_iff.mp hb with hempty | hbuffer
    · have hzero : m.capacity = 0 := of_decide_eq_true hempty
      rw [hzero, Nat.zero_mul]
      rfl
    · exact Nat.mod_eq_of_lt (mul_width_lt hbuffer)
  have hcontents : (m.put r).toRecord.contents = r.contents := by
    simp only [toRecord, put, Array.foldl_map]
    rw [← Array.foldl_toList, Array.toList_range, foldl_rows, ← hsize, Array.extract_size]
  have husage : (m.put r).toRecord.usage = r.usage := by
    simp only [toRecord, usage, put, Array.map_map, ← h.usage]
    exact map_range_getD r.usage 0
  have himportance : (m.put r).toRecord.importance = r.importance := by
    simp only [toRecord, importance, put, Array.map_map, ← h.importance]
    exact map_range_getD r.importance 0
  have hoccupied : (m.put r).toRecord.occupied = r.occupied := map_occupied_put h
  have hslots : (m.put r).toRecord.slots = r.slots := (m.capacity_put r).trans h.slotCount.symm
  have hwidth : (m.put r).toRecord.width = r.width := h.rowWidth.symm
  calc (m.put r).toRecord
      = ⟨(m.put r).toRecord.slots, (m.put r).toRecord.width, (m.put r).toRecord.contents, (m.put r).toRecord.usage,
          (m.put r).toRecord.importance, (m.put r).toRecord.occupied, r.links, r.writes⟩ := rfl
    _ = r := by rw [hslots, hwidth, hcontents, husage, himportance, hoccupied]

/-! ### Calls -/

/-- What can be asked of a memory. -/
inductive Call where
  | write (value : Vec) (strength : Float32)
  | read (b : Backend) (query : Vec) (size : ℕ)
  | readLinked (b : Backend) (query : Vec) (d : Direction) (size : ℕ)
  | addressing (b : Backend) (query : Vec) (size : ℕ)
  | analyze
  | recent
  | clear
  | restore (r : MemoryRecord)

/-- What a memory answers. -/
inductive Answer where
  | stored (place : Option Stored)
  | found (best : Recall)
  | shares (weights : Vec)
  | figures (analysis : MemoryAnalysis)
  | walk (slots : List ℕ)
  | done

/-- What is brought along has the size that a memory of that many slots and that width expects. -/
def Call.Sized (n width : ℕ) : Call → Prop
  | .write value _ => value.size = width
  | .read _ query size | .readLinked _ query _ size => query.size = width ∧ size = width
  | .addressing _ query size => query.size = width ∧ size = n
  | .restore r => r.Suits n width
  | .analyze | .recent | .clear => True

/-- The answer names none but slots of a memory of that many. A walk visits at most as many. -/
def Answer.Within (n : ℕ) : Answer → Prop
  | .stored place => ∀ stored ∈ place, stored.slot < n
  | .found best => ∀ slot ∈ best.slot, slot < n
  | .shares weights => weights.size = n
  | .figures analysis => analysis.capacity = n
  | .walk slots => slots.length ≤ n ∧ ∀ slot ∈ slots, slot < n
  | .done => True

/-- The answer to a call, and the memory after it. -/
def serve (m : Memory) : Call → Outcome Answer × Memory
  | .write value strength =>
    match m.write value strength with
    | .ok (place, m) => (.ok (.stored place), m)
    | .error e => (.error e, m)
  | .read b query size => ((m.read b query size).map .found, m)
  | .readLinked b query d size => ((m.readLinked b query d size).map .found, m)
  | .addressing b query size => ((m.addressing b query size).map .shares, m)
  | .analyze => (.ok (.figures m.analyze), m)
  | .recent => (m.links.recent.map .walk, m)
  | .clear => (.ok .done, m.clear)
  | .restore r =>
    match m.restore r with
    | .ok m => (.ok .done, m)
    | .error e => (.error e, m)

/-- The answers to calls in turn. -/
def transcript (m : Memory) : List Call → List (Outcome Answer)
  | [] => []
  | call :: calls => (m.serve call).1 :: (m.serve call).2.transcript calls

theorem Ranged.serve (h : m.Ranged c n) (hb : m.isBacked = true) {call : Call} (hcall : call.Sized n c.width) :
    (m.serve call).2.Ranged c n ∧ ∃ answer, (m.serve call).1 = .ok answer ∧ answer.Within n := by
  cases call with
  | write value strength =>
    rcases Nat.eq_zero_or_pos n with rfl | hpos
    · simp only [Memory.serve, h.write_none hcall]
      exact ⟨h, _, rfl, by simp [Answer.Within]⟩
    · obtain ⟨stored, m', hwrite, hslot, hranged, -⟩ := h.write_some hb hpos hcall strength
      simp only [Memory.serve, hwrite]
      refine ⟨hranged, _, rfl, ?_⟩
      rintro _ ⟨⟩
      exact hslot
  | read b query size =>
    obtain ⟨hq, rfl⟩ := hcall
    obtain ⟨found, hread, hslot⟩ := Memory.read_ok hb b (hq.trans h.width.symm)
    rw [h.width] at hread
    rw [h.capacity] at hslot
    simp only [Memory.serve, hread]
    exact ⟨h, _, rfl, hslot⟩
  | readLinked b query d size =>
    obtain ⟨hq, rfl⟩ := hcall
    obtain ⟨found, hread, hslot⟩ := h.readLinked_ok hb b hq d
    simp only [Memory.serve, hread]
    exact ⟨h, _, rfl, hslot⟩
  | addressing b query size =>
    obtain ⟨hq, rfl⟩ := hcall
    obtain ⟨shares, hshares, hsize⟩ := h.addressing_ok hb b hq
    simp only [Memory.serve, hshares]
    exact ⟨h, _, rfl, hsize⟩
  | analyze => exact ⟨h, _, rfl, h.capacity⟩
  | recent =>
    obtain ⟨walk, hwalk, hwithin⟩ := h.links.recent_ok
    simp only [Memory.serve, hwalk]
    exact ⟨h, _, rfl, hwithin⟩
  | clear => exact ⟨h.clear, _, rfl, trivial⟩
  | restore r =>
    have hsuits : r.Suits m.capacity m.width := by rwa [h.capacity, h.width]
    have hput := ranged_put hsuits
    rw [h.config, h.capacity] at hput
    simp only [Memory.serve, restore_of_suits hsuits]
    exact ⟨hput, _, rfl, trivial⟩

/-- **Links in range are enough**: a memory with a buffer answers every call that is of the right size, and every one
after it. -/
theorem Ranged.transcript (h : m.Ranged c n) (hb : m.isBacked = true) {calls : List Call}
    (hcalls : ∀ call ∈ calls, call.Sized n c.width) :
    ∀ outcome ∈ m.transcript calls, ∃ answer, outcome = .ok answer ∧ answer.Within n := by
  induction calls generalizing m with
  | nil => simp [Memory.transcript]
  | cons call calls ih =>
    obtain ⟨hnext, answer, hanswer, hwithin⟩ := h.serve hb (hcalls call List.mem_cons_self)
    have hb' : (m.serve call).2.isBacked = true := by rw [hnext.isBacked, ← h.isBacked, hb]
    intro outcome houtcome
    rcases List.mem_cons.mp houtcome with rfl | hrest
    · exact ⟨answer, hanswer, hwithin⟩
    · exact ih hnext hb' (fun call hcall => hcalls call (List.mem_cons_of_mem _ hcall)) outcome hrest

end Memory

/-! ### Accumulators -/

namespace Accumulator

variable {a a' : Accumulator} {r : AccumulatorRecord} {i : ℕ}

theorem getElem?_foldl_set {entries : List (ℕ × Float32)} (h : Sparse.Ascending entries) {xs : Vec} (hi : i < xs.size) :
    (entries.foldl (fun sums e => sums.setIfInBounds e.1 e.2) xs)[i]? =
      some ((Sparse.find? i entries).getD (xs.getD i 0)) := by
  induction entries generalizing xs with
  | nil => simp [Sparse.find?, hi]
  | cons e rest ih =>
    obtain ⟨hfirst, hrest⟩ := List.pairwise_cons.mp h
    have hsize : i < (xs.setIfInBounds e.1 e.2).size := by rwa [Array.size_setIfInBounds]
    rw [List.foldl_cons, ih hrest hsize]
    by_cases he : e.1 = i
    · -- No later entry is for this place.
      have hnone : Sparse.find? i rest = none := by
        rw [Sparse.find?, List.find?_eq_none.mpr fun f hf => ?_, Option.map_none]
        have hlt := hfirst f hf
        simp only [beq_iff_eq]
        omega
      subst he
      have hnew : (xs.setIfInBounds e.1 e.2).getD e.1 0 = e.2 := by simp [hi]
      have hfind : Sparse.find? e.1 (e :: rest) = some e.2 := by simp [Sparse.find?]
      rw [hnone, hnew, hfind]
      rfl
    · have hother : (xs.setIfInBounds e.1 e.2).getD i 0 = xs.getD i 0 := by
        rw [Array.getD_eq_getD_getElem?, Array.getD_eq_getD_getElem?, Array.getElem?_setIfInBounds_ne he]
      have hskip : Sparse.find? i (e :: rest) = Sparse.find? i rest := by
        rw [Sparse.find?, List.find?_cons_of_neg (by simpa using he)]
        rfl
      rw [hother, hskip]

/-- The sums that are put back are those of the record, and zero where it has none. -/
theorem sums_of_restore (hr : Sparse.Ascending r.sums) (h : a.restore r = .ok a') :
    a'.samples = r.samples ∧ a'.sums.size = a.sums.size ∧
      ∀ i < a.sums.size, a'.sums[i]? = some ((Sparse.find? i r.sums).getD 0) := by
  have hzeros : (Vec.zeros a.parameterCount).size = a.sums.size := Array.size_replicate
  rw [eq_ofEntries h]
  refine ⟨rfl, size_ofEntries _ r, fun i hi => ?_⟩
  refine (getElem?_foldl_set hr (hzeros.symm ▸ hi)).trans ?_
  rw [Vec.zeros, Array.getD_eq_getD_getElem?, Array.getElem?_replicate, if_pos (by exact hi)]
  rfl

end Accumulator

theorem CellState.toRecord_of_restore {s s' : CellState} {r : StateRecord} (h : s.restore r = .ok s') :
    s'.toRecord = r := by
  unfold CellState.restore at h
  obtain ⟨_, -, h⟩ := ok_of_bind h
  obtain ⟨_, -, h⟩ := ok_of_bind h
  cases h
  rfl

/-! ### Components -/

theorem Memory.atomic_restore (m : Memory) (r : MemoryRecord) :
    Atomic Memory.restore (fun m r => r.Suits m.capacity m.width) m r :=
  atomic_of_failsBy Memory.restore_iff (Memory.failsBy_restore (by simp) (by simp) m r)

theorem CellState.atomic_restore (s : CellState) (r : StateRecord) :
    Atomic CellState.restore (fun s r => r.hidden.size = s.hidden.size ∧ r.cell.size = s.cell.size) s r :=
  atomic_of_failsBy CellState.restore_iff (CellState.failsBy_restore (by simp) s r)

theorem Accumulator.atomic_restore (a : Accumulator) {r : AccumulatorRecord} (hr : Sparse.Ascending r.sums) :
    Atomic Accumulator.restore (fun a r => ∀ e ∈ r.sums, e.1 < a.parameterCount) a r :=
  atomic_of_failsBy (Accumulator.restore_iff hr) (Accumulator.failsBy_restore (by simp) a r)

/-- **`restore` takes over a record as a whole or not at all**, for a memory `m`, the state `s` of a layer and an
accumulator `a`. `Atomic` says that it succeeds exactly on the records of the shape given, and that otherwise the
error is no fault and the target stays as it is. If `m.isBacked`, the memory `m'` that took over `r` saves `r` again,
and in every transcript of calls that are `Sized` each call is answered, with slots and walks `Within` the capacity,
whatever the links of `r` are like. If not, `m'` can neither be saved nor written: both are out of bounds, and so is
every read and every weighting once `r` has an occupied slot. The state saves the record `q` that it took over; the
accumulator has the sums of `t` at the keys of `t`, and zero elsewhere. -/
theorem components_take_over (m : Memory) (r : MemoryRecord) (s : CellState) (q : StateRecord) (a : Accumulator)
    (t : AccumulatorRecord) :
    (Atomic Memory.restore (fun m r => r.Suits m.capacity m.width) m r ∧
      ∀ m', m.restore r = .ok m' →
        (m.isBacked = true → m'.record = .ok r ∧
          ∀ calls : List Memory.Call, (∀ call ∈ calls, call.Sized m.capacity m.width) →
            ∀ outcome ∈ m'.transcript calls, ∃ answer, outcome = .ok answer ∧ answer.Within m.capacity) ∧
        (m.isBacked = false → m'.record = .error .outOfBounds ∧
          (∀ value strength, value.size = m.width → m'.write value strength = .error .outOfBounds) ∧
          (true ∈ r.occupied → ∀ b query, query.size = m.width →
            m'.read b query m.width = .error .outOfBounds ∧
            m'.addressing b query m.capacity = .error .outOfBounds))) ∧
    (Atomic CellState.restore (fun s q => q.hidden.size = s.hidden.size ∧ q.cell.size = s.cell.size) s q ∧
      ∀ s', s.restore q = .ok s' → s'.toRecord = q) ∧
    (Sparse.Ascending t.sums →
      Atomic Accumulator.restore (fun a t => ∀ e ∈ t.sums, e.1 < a.parameterCount) a t ∧
      ∀ a', a.restore t = .ok a' → a'.samples = t.samples ∧ a'.sums.size = a.sums.size ∧
        ∀ i < a.sums.size, a'.sums[i]? = some ((Sparse.find? i t.sums).getD 0)) := by
  refine ⟨⟨m.atomic_restore r, fun m' hm' => ?_⟩, ⟨s.atomic_restore q, fun s' hs' => ?_⟩, fun ht => ?_⟩
  · obtain ⟨hsuits, rfl⟩ := Memory.eq_put_of_restore hm'
    have hranged := Memory.ranged_put hsuits
    have hbacked : (m.put r).isBacked = m.isBacked := hranged.isBacked
    refine ⟨fun hb => ⟨?_, fun calls hcalls => ?_⟩,
      fun hb => ⟨?_, fun value strength hv => ?_, fun hoccupied b query hq => ?_⟩⟩
    · rw [Memory.record, if_pos (hbacked.trans hb), Memory.toRecord_put hsuits hb]
    · exact hranged.transcript (hbacked.trans hb) hcalls
    · rw [Memory.record, hbacked, hb]
      rfl
    · exact hranged.write_unbacked (hbacked.trans hb) hv strength
    · exact hranged.read_unbacked (hbacked.trans hb) (Memory.isEmpty_put hsuits hoccupied) b hq
  · exact CellState.toRecord_of_restore hs'
  · exact ⟨a.atomic_restore ht, fun a' ha' => Accumulator.sums_of_restore ht ha'⟩

/-- A record of two slots that lead to each other, the second of them free. -/
def MemoryRecord.circular : MemoryRecord where
  slots := 2
  width := 1
  contents := #[1, 2]
  usage := #[1, 1]
  importance := #[1, 1]
  occupied := #[true, false]
  links := ⟨#[some 1, some 0], #[some 1, some 0], some 0⟩
  writes := 7

/-- A record of two slots so wide that the number of what they hold is zero as a word. -/
def MemoryRecord.vast : MemoryRecord where
  slots := 2
  width := 9223372036854775808
  contents := #[]
  usage := #[0, 0]
  importance := #[0, 0]
  occupied := #[false, false]
  links := ⟨#[none, none], #[none, none], none⟩
  writes := 0

theorem MemoryRecord.suits_circular : MemoryRecord.circular.Suits 2 1 :=
  ⟨rfl, rfl, rfl, rfl, rfl, rfl, ⟨rfl, rfl, by simp [circular, Links.inRange], by simp [circular, Links.inRange], rfl⟩⟩

theorem MemoryRecord.suits_vast : MemoryRecord.vast.Suits 2 9223372036854775808 :=
  ⟨rfl, rfl, rfl, rfl, rfl, rfl, Links.within_ofSize 2⟩

theorem components_take_over_circular_not_vast :
    (∃ m m', Memory.ofConfig { slots := 2, width := 1 } = .ok m ∧ m.restore .circular = .ok m' ∧
      m'.record = .ok .circular ∧
      ∀ outcome ∈ m'.transcript [.recent, .write #[3] 1, .readLinked .scalar #[3] .forward 1, .recent],
        ∃ answer, outcome = .ok answer ∧ answer.Within 2) ∧
    (∃ s', (CellState.initial 1 1).restore ⟨#[1], #[2], 3⟩ = .ok s' ∧ s'.toRecord = ⟨#[1], #[2], 3⟩) ∧
    (∃ a', (Accumulator.ofCount 2).restore ⟨3, [(1, 4)]⟩ = .ok a' ∧ a'.sums[0]? = some 0 ∧ a'.sums[1]? = some 4) ∧
    ∃ m m', Memory.ofConfig { slots := 2, width := 9223372036854775808 } = .ok m ∧ m.restore .vast = .ok m' ∧
      m'.record = .error .outOfBounds := by
  let narrow := Memory.empty { slots := 2, width := 1 }
  let wide := Memory.empty { slots := 2, width := 9223372036854775808 }
  have hnarrow := Memory.restore_of_suits (m := narrow) MemoryRecord.suits_circular
  have hwide := Memory.restore_of_suits (m := wide) MemoryRecord.suits_vast
  have hbacked : narrow.isBacked = true := by decide +kernel
  have hunbacked : wide.isBacked = false := by decide +kernel
  have htaken (m : Memory) (r : MemoryRecord) :=
    components_take_over m r (.initial 1 1) ⟨#[1], #[2], 3⟩ (.ofCount 2) ⟨3, [(1, 4)]⟩
  obtain ⟨⟨-, hmemory⟩, ⟨-, hstate⟩, haccumulator⟩ := htaken narrow .circular
  obtain ⟨hrecord, hcalls⟩ := (hmemory _ hnarrow).1 hbacked
  obtain ⟨-, -, hsums⟩ := (haccumulator (List.pairwise_singleton _ _)).2 _ rfl
  refine ⟨⟨narrow, _, rfl, hnarrow, hrecord, hcalls _ ?_⟩, ⟨_, rfl, hstate _ rfl⟩,
    ⟨_, rfl, hsums 0 (by decide), hsums 1 (by decide)⟩, wide, _, rfl, hwide,
    (((htaken wide .vast).1.2 _ hwide).2 hunbacked).1⟩
  rintro call (_ | ⟨_, _ | ⟨_, _ | ⟨_, _ | ⟨_, ⟨⟩⟩⟩⟩⟩)
  exacts [trivial, rfl, ⟨rfl, rfl⟩, trivial]

end NpcMind
