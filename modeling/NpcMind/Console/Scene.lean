import NpcMind.Console.Argument
import NpcMind.Mind.Affect
import NpcMind.Mind.Percept
import NpcMind.Profile

/-!
# Scenes by description

A scene is described by what is special about it. Everything that a description leaves out is as in a
quiet scene in which nothing goes on.
-/

namespace NpcMind

/-- A described part that may be left out. -/
def Document.part? (d : Document) (name : String) : Option Document :=
  match d.field? name with
  | none => some (.record [])
  | some (.record fields) => some (.record fields)
  | some _ => none

/-- A change that a description asks for, if it does. -/
def Document.changed? {α σ : Type} [Argument α] (d : Document) (name : String) (change : α → σ → σ)
    (s : σ) : Option σ :=
  match d.field? name with
  | none => some s
  | some x => do return change (← Argument.read? x) s

namespace Senses

/-- The senses with one cell of the visual field set. -/
def setCell? (s : Senses) (cell : Document) : Option Senses := do
  let .list [y, x, v] := cell | none
  let y : Nat ← Argument.read? y
  let x : Nat ← Argument.read? x
  let v : Float32 ← Argument.read? v
  if y < visionSide ∧ x < visionSide then
    return { s with vision := s.vision.setIfInBounds (y * visionSide + x) v }
  else none

/-- The senses with one bin of the audio spectrum set. -/
def setBin? (s : Senses) (bin : Nat × Float32) : Option Senses :=
  if bin.1 < audioBins then some { s with audio := s.audio.setIfInBounds bin.1 bin.2 } else none

/-- The senses that a description gives. -/
def ofDescription? (d : Document) : Option Senses := do
  let s : Senses := {}
  let s ← d.changed? "visual_fill" (fun x (s : Senses) => { s with vision := Vector.replicate _ x }) s
  let s ← d.changed? "audio_fill" (fun x (s : Senses) => { s with audio := Vector.replicate _ x }) s
  let s ← d.changed? "player" (fun x (s : Senses) => s.withPlayer x) s
  let s ← d.changed? "combat" (fun x (s : Senses) => s.withCombat x) s
  let s ← readings.foldlM (fun s f => d.changed? f.name f.set s) s
  let cells : List Document ← d.argumentD? "visual" []
  let bins : List (Nat × Float32) ← d.argumentD? "audio" []
  bins.foldlM setBin? (← cells.foldlM setCell? s)

end Senses

namespace Encounter

/-- The encounter that a name stands for. -/
def ofBase? : String → Option Encounter
  | "idle" => some idle
  | "friendly" => some friendly
  | "hostile" => some hostile
  | _ => none

/-- The encounter that a description gives. -/
def ofDescription? (d : Document) : Option Encounter := do
  let e ← ofBase? (← d.argumentD? "base" "idle")
  let e ← d.changed? "threat" (fun x (e : Encounter) => e.withThreat x) e
  let e ← d.changed? "phrase" (fun x (e : Encounter) => e.withPhrase x) e
  return { e with
    duration := ← d.argumentD? "conversation_duration" e.duration
    tone := ← d.argumentD? "player_tone" e.tone
    threat := ← d.argumentD? "threat_level" e.threat
    urgency := ← d.argumentD? "urgency" e.urgency
    goalAlignment := ← d.argumentD? "shared_goal_alignment" e.goalAlignment
    inConversation := ← d.argumentD? "in_conversation" e.inConversation
    isPrivate := ← d.argumentD? "private_setting" e.isPrivate }

end Encounter

/-- The percept that a description gives. -/
def Percept.ofDescription? (d : Document) : Option Percept := do
  return {
    playerVisible := ← d.argumentD? "visible" false
    playerSpeaking := ← d.argumentD? "speaking" false
    combat := ← d.argumentD? "combat" 0
    threat := ← d.argumentD? "threat" 0 }

/-- The stimulus that a description gives. -/
def Stimulus.ofDescription? (d : Document) : Option Stimulus := do
  return {
    inConversation := ← d.argumentD? "in_conversation" false
    tone := ← d.argumentD? "tone" 0
    threat := ← d.argumentD? "threat" 0
    combat := ← d.argumentD? "combat" 0
    isPrivate := ← d.argumentD? "private_setting" false
    familiarity := ← d.argumentD? "familiarity" 0
    playerMood := ← d.argumentD? "player_mood" 0
    sharedGoal := ← d.argumentD? "shared_goal" 0 }

/-- The profile that a description gives. -/
def Profile.ofDescription? (d : Document) : Option Profile := do
  let background ← match d.field? "background" with
    | none => some none
    | some text => (Argument.read? text).map some
  return {
    id := ← d.argument? "id"
    name := ← d.argument? "name"
    archetype := ← d.argument? "archetype"
    background }

end NpcMind
