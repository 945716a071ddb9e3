import NpcMind.Document.Codec
import NpcMind.Single

/-!
# What an agent senses

The raw input of one tick: a square visual field, an audio spectrum and eighteen scalar readings.
-/

namespace NpcMind

/-- The side of the visual field. -/
def visionSide : Nat := 16

/-- The number of bins of the audio spectrum. -/
def audioBins : Nat := 32

/-- The raw senses in one tick. -/
structure Senses where
  /-- Brightness of each cell of the visual field, row by row. -/
  vision : Vector Float32 (visionSide * visionSide) := Vector.replicate _ 0
  /-- Energy of each frequency, low ones first. -/
  audio : Vector Float32 audioBins := Vector.replicate _ 0
  playerVisible : Float32 := 0
  playerDistance : Float32 := 1
  playerFacing : Float32 := 0
  playerSpeaking : Float32 := 0
  combatSounds : Float32 := 0
  ambientThreat : Float32 := 0
  playerEmotionalState : Float32 := 0
  conversationContext : Float32 := 0
  socialPressure : Float32 := 0
  intimacy : Float32 := 0
  hunger : Float32 := 0
  energy : Float32 := 1
  health : Float32 := 1
  goalPriority : Float32 := 0
  locationType : Float32 := 0
  timeOfDay : Float32 := 0.5
  weather : Float32 := 0
  familiarity : Float32 := 0.5

namespace Senses

/-- Nobody is around and nothing is to be heard. -/
def quiet : Senses := {}

instance : Inhabited Senses := ⟨quiet⟩

/-- The player stands in view at a distance, with 0 for right beside and 1 for far off. -/
def withPlayer (s : Senses) (distance : Float32) : Senses :=
  { s with
    playerVisible := 1
    playerDistance := Single.unit distance
    playerFacing := 1
    vision := s.vision.setIfInBounds (visionSide / 2 * visionSide + visionSide / 2) 1 }

/-- The noise of combat fills the low quarter of the spectrum. -/
def withCombat (s : Senses) (loudness : Float32) : Senses :=
  let loud := Single.unit loudness
  { s with
    combatSounds := loud
    audio := s.audio.mapIdx fun i x => if i < audioBins / 4 then loud else x }

/-- A scalar reading: its name, how to look it up and how to change it. -/
structure Reading where
  name : String
  get : Senses → Float32
  set : Float32 → Senses → Senses

/-- The scalar readings. -/
def readings : List Reading := [
  ⟨"player_visible", playerVisible, fun x s => { s with playerVisible := x }⟩,
  ⟨"player_distance", playerDistance, fun x s => { s with playerDistance := x }⟩,
  ⟨"player_facing", playerFacing, fun x s => { s with playerFacing := x }⟩,
  ⟨"player_speaking", playerSpeaking, fun x s => { s with playerSpeaking := x }⟩,
  ⟨"combat_sounds", combatSounds, fun x s => { s with combatSounds := x }⟩,
  ⟨"ambient_threat", ambientThreat, fun x s => { s with ambientThreat := x }⟩,
  ⟨"player_emotional_state", playerEmotionalState, fun x s => { s with playerEmotionalState := x }⟩,
  ⟨"conversation_context", conversationContext, fun x s => { s with conversationContext := x }⟩,
  ⟨"social_pressure", socialPressure, fun x s => { s with socialPressure := x }⟩,
  ⟨"intimacy", intimacy, fun x s => { s with intimacy := x }⟩,
  ⟨"hunger", hunger, fun x s => { s with hunger := x }⟩,
  ⟨"energy", energy, fun x s => { s with energy := x }⟩,
  ⟨"health", health, fun x s => { s with health := x }⟩,
  ⟨"goal_priority", goalPriority, fun x s => { s with goalPriority := x }⟩,
  ⟨"location_type", locationType, fun x s => { s with locationType := x }⟩,
  ⟨"time_of_day", timeOfDay, fun x s => { s with timeOfDay := x }⟩,
  ⟨"weather", weather, fun x s => { s with weather := x }⟩,
  ⟨"familiarity", familiarity, fun x s => { s with familiarity := x }⟩]

/-- Some reading, cell or bin is a NaN or an infinity. -/
def hasNonFinite (s : Senses) : Bool :=
  !(Vec.isFinite s.vision.toArray && Vec.isFinite s.audio.toArray &&
    readings.all fun r => (r.get s).isFinite)

/-- The rows of the visual field. -/
def rows (s : Senses) : List Vec :=
  (List.range visionSide).map fun y => s.vision.toArray.extract (y * visionSide) ((y + 1) * visionSide)

/-- The names of the fields of a written record, in order. -/
def fieldNames : List String :=
  ["visual_field"] ++ (readings.take 3).map Reading.name ++ ["audio_spectrum"] ++
    (readings.drop 3).map Reading.name

/-- A vector of a fixed length. -/
def vector? (n : Nat) (xs : Vec) : Option (Vector Float32 n) :=
  if h : xs.size = n then some ⟨xs, h⟩ else none

instance : Codec Senses where
  encode s :=
    let scalars := readings.map fun r => (r.name, Codec.encode (r.get s))
    .record ([("visual_field", Codec.encode s.rows), ("audio_spectrum", Codec.encode s.audio.toArray)] ++
      scalars)
  decode? d := do
    let e ← d.entries? fieldNames
    let rows : List Vec ← e.get "visual_field"
    guard (rows.length = visionSide ∧ rows.all (·.size = visionSide))
    let vision ← vector? _ (rows.foldl (· ++ ·) #[])
    let audio : Vec ← e.get "audio_spectrum"
    let audio ← vector? _ audio
    readings.foldlM (fun s r => do return r.set (← e.get r.name) s) { vision, audio }

end Senses

end NpcMind
