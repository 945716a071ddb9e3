import NpcMind.Action
import NpcMind.BoundedText
import NpcMind.Emotion
import NpcMind.Error
import NpcMind.Region

/-!
# Decisions

What an agent decided in a tick, as the game receives it.
-/

namespace NpcMind

/-- The room for a line of speech, in bytes. -/
def speechRoom : Nat := 256

/-- What an agent decided in one tick. -/
structure Decision where
  action : Action := .idle
  /-- The probability of the chosen action. -/
  confidence : Float32 := 0
  intensity : Float32 := 0
  /-- The desired heading, east and north, each from -1 to 1. -/
  movement : Float32 × Float32 := (0, 0)
  speed : Float32 := 0
  speech : BoundedText speechRoom := .empty
  dominantEmotion : Emotion := .joy
  /-- The strength of the dominant emotion. -/
  emotionalTone : Float32 := 0
  /-- The attention paid to each channel after the tick. -/
  attention : Vec := Vec.zeros channelCount
  memoryWriteSignal : Float32 := 0
  learningRate : Float32 := 0
  /-- An experience was stored. -/
  memoryWritten : Bool := false
  /-- The decision was made by reflex. -/
  degraded : Bool := false
  /-- The tick took longer than it should have. -/
  overBudget : Bool := false
  /-- The number of the tick in the agent's life. -/
  tick : UInt64 := 0

namespace Decision

instance : Inhabited Decision := ⟨{}⟩

/-- The decision with another line of speech. -/
def setSpeech (d : Decision) (line : String) : Decision := { d with speech := .ofText line }

/-- The decision with more to say. -/
def pushSpeech (d : Decision) (fragment : String) : Decision :=
  { d with speech := d.speech.append fragment }

/-- The mean attention over the channels from `start` up to `stop`; zero if there are none. -/
def meanAttention (d : Decision) (start stop : Nat) : Outcome Float32 := do
  if stop ≤ start then return 0
  requireWithin stop d.attention.size
  return Vec.total (d.attention.extract start stop) / (stop - start).toFloat32

instance : Codec Decision where
  encode d := .record [
    ("action", Codec.encode d.action),
    ("confidence", Codec.encode d.confidence),
    ("intensity", Codec.encode d.intensity),
    ("movement", Codec.encode d.movement),
    ("speed", Codec.encode d.speed),
    ("speech", Codec.encode d.speech),
    ("dominant_emotion", Codec.encode d.dominantEmotion),
    ("emotional_tone", Codec.encode d.emotionalTone),
    ("attention", Codec.encode d.attention),
    ("memory_write_signal", Codec.encode d.memoryWriteSignal),
    ("learning_rate", Codec.encode d.learningRate),
    ("memory_written", Codec.encode d.memoryWritten),
    ("degraded", Codec.encode d.degraded),
    ("over_budget", Codec.encode d.overBudget),
    ("tick", Codec.encode d.tick)]
  decode? d := do
    let r ← d.entries? ["action", "confidence", "intensity", "movement", "speed", "speech",
      "dominant_emotion", "emotional_tone", "attention", "memory_write_signal", "learning_rate",
      "memory_written", "degraded", "over_budget", "tick"]
    return {
      action := ← r.get "action"
      confidence := ← r.get "confidence"
      intensity := ← r.get "intensity"
      movement := ← r.get "movement"
      speed := ← r.get "speed"
      speech := ← r.get "speech"
      dominantEmotion := ← r.get "dominant_emotion"
      emotionalTone := ← r.get "emotional_tone"
      attention := ← r.get "attention"
      memoryWriteSignal := ← r.get "memory_write_signal"
      learningRate := ← r.get "learning_rate"
      memoryWritten := ← r.get "memory_written"
      degraded := ← r.get "degraded"
      overBudget := ← r.get "over_budget"
      tick := ← r.get "tick" }

end Decision

end NpcMind
