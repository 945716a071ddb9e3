import NpcMind.Document.Codec
import NpcMind.Single

/-!
# Affect components

The thirty-two components of an agent's affect: eight basic emotions, five traits, seven counters of
what happened between agent and player, six readings of the situation and six impressions. Each
component declares the range it stays in.
-/

namespace NpcMind

/-- A component of affect. -/
inductive Emotion where
  | trust
  | fear
  | anger
  | joy
  | curiosity
  | respect
  | affection
  | loneliness
  | extraversion
  | agreeableness
  | conscientiousness
  | neuroticism
  | openness
  | positiveInteractions
  | negativeInteractions
  | sharedVictories
  | betrayals
  | giftsReceived
  | favorsDone
  | timeTogether
  | locationFamiliarity
  | socialSetting
  | threatLevel
  | playerMood
  | relationshipStatus
  | sharedGoalProgress
  | firstMeetingQuality
  | lastInteractionQuality
  | strongestPositiveMemory
  | strongestNegativeMemory
  | playerCombatStyle
  | playerPreferences
  deriving DecidableEq, Repr

instance : Inhabited Emotion := ⟨.joy⟩

/-- The range that a component of affect stays in. -/
inductive AffectRange where
  /-- From 0 to 1. -/
  | unit
  /-- From -1 to 1. -/
  | signed
  /-- From 0 up. -/
  | counter
  deriving DecidableEq, Repr

namespace AffectRange

/-- The ends of a range. -/
def bounds : AffectRange → Float32 × Float32
  | .unit => (0, 1)
  | .signed => (-1, 1)
  | .counter => (0, Single.infinity)

/-- A value moved into the range. -/
def clamp (r : AffectRange) (x : Float32) : Float32 := Single.clamp r.bounds.1 r.bounds.2 x

/-- The value lies in the range. -/
def contains (r : AffectRange) (x : Float32) : Bool := r.bounds.1 ≤ x && x ≤ r.bounds.2

/-- The name of a range. -/
def name : AffectRange → String
  | .unit => "Unit"
  | .signed => "Signed"
  | .counter => "Counter"

instance : Named AffectRange := ⟨[.unit, .signed, .counter], name⟩

instance : Codec AffectRange := Named.codec

end AffectRange

namespace Emotion

/-- The number of components. -/
def count : Nat := 32

/-- The number of basic emotions, which come first. -/
def basicCount : Nat := 8

/-- Every component, in order. -/
def all : List Emotion :=
  [.trust, .fear, .anger, .joy, .curiosity, .respect, .affection, .loneliness, .extraversion,
   .agreeableness, .conscientiousness, .neuroticism, .openness, .positiveInteractions,
   .negativeInteractions, .sharedVictories, .betrayals, .giftsReceived, .favorsDone,
   .timeTogether, .locationFamiliarity, .socialSetting, .threatLevel, .playerMood,
   .relationshipStatus, .sharedGoalProgress, .firstMeetingQuality, .lastInteractionQuality,
   .strongestPositiveMemory, .strongestNegativeMemory, .playerCombatStyle, .playerPreferences]

/-- The name of a component. -/
def name : Emotion → String
  | .trust => "Trust"
  | .fear => "Fear"
  | .anger => "Anger"
  | .joy => "Joy"
  | .curiosity => "Curiosity"
  | .respect => "Respect"
  | .affection => "Affection"
  | .loneliness => "Loneliness"
  | .extraversion => "Extraversion"
  | .agreeableness => "Agreeableness"
  | .conscientiousness => "Conscientiousness"
  | .neuroticism => "Neuroticism"
  | .openness => "Openness"
  | .positiveInteractions => "PositiveInteractions"
  | .negativeInteractions => "NegativeInteractions"
  | .sharedVictories => "SharedVictories"
  | .betrayals => "Betrayals"
  | .giftsReceived => "GiftsReceived"
  | .favorsDone => "FavorsDone"
  | .timeTogether => "TimeTogether"
  | .locationFamiliarity => "LocationFamiliarity"
  | .socialSetting => "SocialSetting"
  | .threatLevel => "ThreatLevel"
  | .playerMood => "PlayerMood"
  | .relationshipStatus => "RelationshipStatus"
  | .sharedGoalProgress => "SharedGoalProgress"
  | .firstMeetingQuality => "FirstMeetingQuality"
  | .lastInteractionQuality => "LastInteractionQuality"
  | .strongestPositiveMemory => "StrongestPositiveMemory"
  | .strongestNegativeMemory => "StrongestNegativeMemory"
  | .playerCombatStyle => "PlayerCombatStyle"
  | .playerPreferences => "PlayerPreferences"

/-- The place of a component. -/
def index (e : Emotion) : Nat := e.ctorIdx

/-- The component at a place. -/
def ofIndex? (i : Nat) : Option Emotion := all[i]?

/-- The range of the component at a place. -/
def rangeAt (i : Nat) : AffectRange :=
  if i < 8 then .unit else if 13 ≤ i ∧ i < 20 then .counter else .signed

/-- The range of a component. -/
def range (e : Emotion) : AffectRange := rangeAt e.index

/-- The component is one of the basic emotions. -/
def isBasic (e : Emotion) : Bool := e.index < basicCount

/-- The component drifts back to its baseline: emotions and traits do. -/
def decays (e : Emotion) : Bool := e.index ≤ openness.index

instance : Named Emotion := ⟨all, name⟩

instance : Codec Emotion := Named.codec

end Emotion

end NpcMind
