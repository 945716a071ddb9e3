import NpcMind.Agent.Snapshot
import NpcMind.Agent.Tick
import NpcMind.Proofs.Consolidation

/-!
# Tasks without their identities

A task gets its identity when it is stored, from a source outside of the agent, so two runs of one agent store
their tasks under different ones. `anonymous` puts the nil identity in the place of all of them. It commutes with
the choice of the task to give up, with `Consolidator.consolidate`, with `toRecord` and with
`Agent.consolidated`: nothing but the identities depends on the identities.
-/

namespace NpcMind

/-- The task under the nil identity. -/
def Task.anonymous (t : Task Float32) : Task Float32 := { t with id := .nil }

/-- The record with all tasks under the nil identity. -/
def ConsolidatorRecord.anonymous (r : ConsolidatorRecord) : ConsolidatorRecord :=
  { r with tasks := r.tasks.map Task.anonymous }

/-- The snapshot with all tasks under the nil identity. -/
def Snapshot.anonymous (s : Snapshot) : Snapshot := { s with consolidator := s.consolidator.anonymous }

namespace Consolidator

/-- The consolidator with all tasks under the nil identity. -/
def anonymous (k : Consolidator) : Consolidator := { k with tasks := k.tasks.map Task.anonymous }

theorem parameterCount_anonymous (k : Consolidator) : k.anonymous.parameterCount = k.parameterCount := rfl

theorem leastBy_anonymous {less : Task Float32 → Task Float32 → Bool}
    (h : ∀ t u, less t.anonymous u.anonymous = less t u) (tasks : List (Task Float32)) :
    leastBy less (tasks.map Task.anonymous) = leastBy less tasks := by
  rw [leastBy_eq, leastBy_eq, Layout.best?_map h, Option.map_map]
  rfl

theorem victim?_anonymous (k : Consolidator) : k.anonymous.victim? = k.victim? := by
  unfold victim? anonymous
  cases k.prunePolicy with
  | leastImportant => exact leastBy_anonymous (fun _ _ => rfl) k.tasks
  | oldest => exact leastBy_anonymous (fun _ _ => rfl) k.tasks

theorem makeRoom_anonymous (k : Consolidator) :
    k.anonymous.makeRoom = (k.makeRoom.1.map Task.anonymous, k.makeRoom.2.anonymous) := by
  unfold makeRoom
  rw [victim?_anonymous, show k.anonymous.tasks.length = k.tasks.length from List.length_map _,
    show k.anonymous.maxTasks = k.maxTasks from rfl]
  split
  · rfl
  · cases k.victim? with
    | none => rfl
    | some i => simp only [anonymous, List.getElem?_map, List.eraseIdx_map]

/-- Storing a task under one identity or another comes to the same, but for the identity. -/
theorem consolidate_anonymous (k : Consolidator) (id : Uuid) (name : String) (optimal : Vec)
    (fisher : FisherTable Float32) (importance : Float32) (tick : UInt64) :
    k.anonymous.consolidate .nil name optimal fisher importance tick =
      (k.consolidate id name optimal fisher importance tick).map fun r =>
        (r.1.map Task.anonymous, r.2.anonymous) := by
  unfold consolidate
  rw [makeRoom_anonymous, parameterCount_anonymous]
  dsimp only
  split
  · rfl
  · cases fisher.validate k.parameterCount with
    | error e => rfl
    | ok u =>
      simp only [bind, Except.bind, pure, Except.pure, Except.map, anonymous, List.map_append, List.map_singleton]
      rfl

end Consolidator

/-- Consolidating an agent commutes with `anonymous`. -/
theorem Agent.consolidated_anonymous (a : Agent) (c : Config.Consolidation) (taskId : Uuid) :
    (a.consolidated c taskId).anonymous =
      { a with consolidator := a.consolidator.anonymous }.consolidated c .nil := by
  unfold consolidated
  cases a.controller with
  | none => rfl
  | some stack =>
    dsimp only
    split
    · rfl
    · rw [a.consolidator.consolidate_anonymous taskId]
      simp only [show a.consolidator.anonymous.consolidations = a.consolidator.consolidations from rfl]
      cases a.consolidator.consolidate taskId _ _ _ _ _ <;> rfl

end NpcMind
