import NpcMind.Archetype
import NpcMind.Scene.Encounter
import NpcMind.Scene.Senses

/-!
# Sensing

The raw senses of a tick and the setting are fused into one vector of channels, region by region, and a
few judgements are drawn from them on the way. Personality then weighs whole regions: the extraverted
feel company more strongly, the neurotic hear loud sounds louder, the open notice more of the place.
Readings that are not finite count as zero.
-/

namespace NpcMind

/-- What an agent makes of its senses. -/
structure Percept where
  playerVisible : Bool := false
  playerSpeaking : Bool := false
  /-- How much it sounds like combat, from 0 to 1. -/
  combat : Float32 := 0
  /-- The strongest sign of danger, from 0 to 1. -/
  threat : Float32 := 0

namespace Percept

/-- Someone is there to talk to or trade with. -/
def hasInterlocutor (p : Percept) (e : Encounter) : Bool := p.playerVisible || e.inConversation

end Percept

namespace Senses

open Single (finiteOrZero)

/-- A truth value as a number. -/
def flag (b : Bool) : Float32 := if b then 1 else 0

/-- How close a cell of the visual field is to its centre. -/
def centrality (cell : Nat) : Float32 :=
  let dx := (cell % visionSide).toFloat32 - (visionSide / 2).toFloat32
  let dy := (cell / visionSide).toFloat32 - (visionSide / 2).toFloat32
  1 - 0.1 * (dx * dx + dy * dy).sqrt

/-- The channels of the visual field. -/
def visionChannels (s : Senses) : Vec := s.vision.toArray.map finiteOrZero

/-- The channels of the audio spectrum. -/
def audioChannels (s : Senses) : Vec := s.audio.toArray.map finiteOrZero

/-- The brightness near the centre of the visual field, of bright cells only. -/
def centralBrightness (s : Senses) : Float32 :=
  s.visionChannels.zipIdx.foldl
    (fun total (pixel, cell) => if pixel > 0.8 && centrality cell > 0.7 then total + pixel else total) 0

/-- The energy of the low quarter of the spectrum. -/
def lowBand (s : Senses) : Float32 := Vec.total (s.audioChannels.extract 0 (audioBins / 4))

/-- The energy of the middle half of the spectrum. -/
def middleBand (s : Senses) : Float32 :=
  Vec.total (s.audioChannels.extract (audioBins / 4) (audioBins * 3 / 4))

/-- What an agent makes of its senses in a setting. -/
def percept (s : Senses) (e : Encounter) : Percept where
  playerVisible := finiteOrZero s.playerVisible > 0.5 || s.centralBrightness > 0.5
  playerSpeaking := finiteOrZero s.playerSpeaking > 0.5 || s.middleBand > 0.3
  combat := Single.unit (Single.larger (s.lowBand / (audioBins / 4).toFloat32) (finiteOrZero s.combatSounds))
  threat := Single.unit (Single.larger (finiteOrZero s.ambientThreat) (finiteOrZero e.threat))

/-- The signals about the player and the company. -/
def socialSignals (s : Senses) (e : Encounter) (p : Percept) : Vec := #[
  flag p.playerVisible,
  flag p.playerVisible * (1 - finiteOrZero s.playerDistance),
  finiteOrZero s.playerFacing,
  flag p.playerSpeaking,
  finiteOrZero s.playerEmotionalState,
  finiteOrZero s.conversationContext,
  finiteOrZero s.socialPressure,
  finiteOrZero s.intimacy,
  flag e.inConversation,
  finiteOrZero e.tone,
  Single.tanh (finiteOrZero e.duration / 60),
  flag e.isPrivate,
  finiteOrZero e.urgency,
  finiteOrZero e.goalAlignment]

/-- The needs and goals. -/
def needs (s : Senses) : Vec := #[
  finiteOrZero s.hunger,
  finiteOrZero s.energy,
  finiteOrZero s.health,
  finiteOrZero s.goalPriority]

/-- Place, time and the judgements of the tick. -/
def situation (s : Senses) (p : Percept) : Vec := #[
  finiteOrZero s.locationType,
  finiteOrZero s.timeOfDay,
  finiteOrZero s.weather,
  finiteOrZero s.familiarity,
  p.threat,
  p.combat]

/-- A vector filled up with zeros to the size of a region. -/
def fillRegion (r : Region) (xs : Vec) : Vec := xs ++ Vec.zeros (r.stop - r.start - xs.size)

/-- The fused channels, as an archetype with the given affect feels them. -/
def channels (s : Senses) (e : Encounter) (a : Archetype) (affect : Vec) : Vec :=
  let p := s.percept e
  let innate (emotion : Emotion) : Float32 := a.baseline.getD emotion.index 0
  let feelings := affect.extract 0 Emotion.basicCount
  s.visionChannels ++
    s.audioChannels.map (fun x => if x > 0.5 then x * (1 + 0.3 * innate .neuroticism) else x) ++
    (fillRegion .social (s.socialSignals e p)).map (· * (1 + 0.5 * innate .extraversion)) ++
    fillRegion .internal (s.needs ++ feelings) ++
    (fillRegion .context (s.situation p)).map (· * (1 + 0.4 * innate .openness))

end Senses

/-- The mean of each group of 32 channels, written over the first entries of a vector. -/
def poolChannels (channels out : Vec) : Vec :=
  out.mapIdx fun i x =>
    let group := channels.extract (i * 32) (i * 32 + 32)
    if i * 32 < channels.size then Vec.total group / group.size.toFloat32 else x

end NpcMind
