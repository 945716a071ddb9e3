import NpcMind.BoundedText
import NpcMind.Single

/-!
# What goes on between agent and player

The setting that comes with the senses of a tick: whether the two talk, in which tone, and how
dangerous the moment is.
-/

namespace NpcMind

/-- The room for a remembered phrase, in bytes. -/
def phraseRoom : Nat := 128

/-- What goes on between an agent and the player. -/
structure Encounter where
  inConversation : Bool := false
  /-- Seconds since the conversation began. -/
  duration : Float32 := 0
  /-- From -1, hostile, to 1, friendly. -/
  tone : Float32 := 0
  /-- Perceived danger, from 0 to 1. -/
  threat : Float32 := 0
  /-- Agent and player are alone. -/
  isPrivate : Bool := false
  urgency : Float32 := 0
  goalAlignment : Float32 := 0
  /-- A phrase for stories and memories, such as `crossed the marsh`. -/
  phrase : BoundedText phraseRoom := .empty

namespace Encounter

/-- No conversation and no danger. -/
def idle : Encounter := {}

instance : Inhabited Encounter := ⟨idle⟩

/-- A warm conversation. -/
def friendly : Encounter := { inConversation := true, tone := 0.8 }

/-- A conversation with an openly hostile player. -/
def hostile : Encounter := { inConversation := true, tone := -0.8 }

/-- The encounter under a threat. -/
def withThreat (e : Encounter) (threat : Float32) : Encounter :=
  { e with threat := Single.unit threat }

/-- The encounter with a phrase to remember. -/
def withPhrase (e : Encounter) (phrase : String) : Encounter := { e with phrase := .ofText phrase }

/-- Friendly enough to count as a good encounter. -/
def isPositive (e : Encounter) : Bool := e.inConversation && e.tone > 0.5

/-- Hostile enough to count as a bad encounter. -/
def isNegative (e : Encounter) : Bool := e.inConversation && e.tone < -0.5

instance : Codec Encounter where
  encode e := .record [
    ("in_conversation", Codec.encode e.inConversation),
    ("conversation_duration", Codec.encode e.duration),
    ("player_tone", Codec.encode e.tone),
    ("threat_level", Codec.encode e.threat),
    ("private_setting", Codec.encode e.isPrivate),
    ("urgency", Codec.encode e.urgency),
    ("shared_goal_alignment", Codec.encode e.goalAlignment),
    ("recent_shared_experience", Codec.encode e.phrase)]
  decode? d := do
    let r ← d.entries? ["in_conversation", "conversation_duration", "player_tone", "threat_level",
      "private_setting", "urgency", "shared_goal_alignment", "recent_shared_experience"]
    return {
      inConversation := ← r.get "in_conversation"
      duration := ← r.get "conversation_duration"
      tone := ← r.get "player_tone"
      threat := ← r.get "threat_level"
      isPrivate := ← r.get "private_setting"
      urgency := ← r.get "urgency"
      goalAlignment := ← r.get "shared_goal_alignment"
      phrase := ← r.get "recent_shared_experience" }

end Encounter

end NpcMind
