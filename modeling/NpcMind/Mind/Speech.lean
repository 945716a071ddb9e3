import NpcMind.Decision
import NpcMind.Mind.Affect

/-!
# Speech

What an agent says with an action. Most actions are silent.
-/

namespace NpcMind.Speech

/-- What agent and player went through together. -/
def sharedExperience (e : Encounter) : String :=
  if e.phrase.text = "" then "first met" else e.phrase.text

/-- The parts of the line that goes with an action, in order. -/
def parts (action : Action) (f : Affect) (dominant : Emotion) (e : Encounter) : List String :=
  match action with
  | .greetFriendly =>
    if f.get .joy > 0.7 then ["Hello there, friend! What brings you here?"]
    else if f.get .trust > 0.6 then ["Good to see you again."]
    else ["Greetings."]
  | .greetNeutral => ["Hello."]
  | .greetHostile =>
    if f.get .anger > 0.7 then ["What do you want?"]
    else if f.get .fear > 0.6 then ["Stay back..."]
    else ["I don't have time for this."]
  | .tellStory => ["Let me tell you about the time we ", sharedExperience e, "..."]
  | .askQuestion =>
    if f.get .curiosity > 0.7 then ["I've been wondering... what do you think about recent events?"]
    else ["How have you been?"]
  | .expressEmotion =>
    match dominant with
    | .joy => ["I'm feeling quite happy today!"]
    | .fear => ["Something doesn't feel right..."]
    | .anger => ["This is frustrating!"]
    | .loneliness => ["It's good to have someone to talk to."]
    | _ => ["I'm feeling... complicated."]
  | .defend => ["Stay behind me!"]
  | .retreat => ["I'm getting out of here!"]
  | .offerTrade => ["I have some items that might interest you."]
  | .acceptTrade => ["You have a deal."]
  | .declineTrade => ["I'll have to pass."]
  | .recallMemory => ["That reminds me of when we ", sharedExperience e, " together."]
  | .shareExperience => ["Remember when we ", sharedExperience e, "?"]
  | _ => []

/-- The decision with the line that goes with its action. -/
def compose (d : Decision) (f : Affect) (e : Encounter) : Decision :=
  (parts d.action f d.dominantEmotion e).foldl Decision.pushSpeech { d with speech := .empty }

end NpcMind.Speech
