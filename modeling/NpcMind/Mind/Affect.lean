import NpcMind.Archetype
import NpcMind.Opinion
import NpcMind.Scene.Encounter
import NpcMind.Scene.Senses

/-!
# Affect

Emotions and traits drift back to the baseline of an archetype, conversations and dangers stir them, and
what happened between agent and player is counted and remembered. After every change each component
lies in its range.
-/

namespace NpcMind

/-- What stirs an agent's affect in a tick. -/
structure Stimulus where
  inConversation : Bool := false
  /-- The tone of the player, from -1 to 1. -/
  tone : Float32 := 0
  threat : Float32 := 0
  /-- How much it sounds like combat. -/
  combat : Float32 := 0
  isPrivate : Bool := false
  familiarity : Float32 := 0
  playerMood : Float32 := 0
  sharedGoal : Float32 := 0

/-- The stimulus of a scene that sounds like combat to some degree. -/
def Stimulus.ofScene (s : Senses) (e : Encounter) (combat : Float32) : Stimulus where
  inConversation := e.inConversation
  tone := e.tone
  threat := Single.larger s.ambientThreat e.threat
  combat := combat
  isPrivate := e.isPrivate
  familiarity := s.familiarity
  playerMood := s.playerEmotionalState
  sharedGoal := e.goalAlignment

/-- What an agent feels, and what it remembers of the player. -/
structure Affect where
  values : Vec
  baseline : Vec
  /-- Seconds since the last conversation. -/
  sinceInteraction : Float32 := 0
  wasInConversation : Bool := false
  metPlayer : Bool := false

namespace Affect

/-- Seconds alone after which loneliness grows. -/
def lonelinessDelay : Float32 := 60

/-- The trust from which on an agent trusts the player. -/
def trustThreshold : Float32 := 0.6

/-- The affection from which on an agent likes the player. -/
def likeThreshold : Float32 := 0.5

/-- An archetype at its baseline. -/
def initial (a : Archetype) : Affect := { values := a.baseline, baseline := a.baseline }

instance : Inhabited Affect := ⟨initial default⟩

/-- The value of a component. -/
def get (f : Affect) (e : Emotion) : Float32 := f.values.getD e.index 0

/-- The affect with another value of a component. -/
def put (f : Affect) (e : Emotion) (x : Float32) : Affect :=
  { f with values := f.values.setIfInBounds e.index x }

/-- The affect with a component raised. -/
def raise (f : Affect) (e : Emotion) (x : Float32) : Affect := f.put e (f.get e + x)

/-- The affect with a component shrunk at a rate per second, never past zero. -/
def ease (f : Affect) (e : Emotion) (rate dt : Float32) : Affect :=
  f.put e (f.get e * (1 - Single.smaller (rate * dt) 1))

/-- Every component moved into its range; a NaN becomes zero. -/
def confine (f : Affect) : Affect :=
  { f with
    values := f.values.mapIdx fun i x =>
      if i < Emotion.count then
        if x.isNaN then 0 else (Emotion.rangeAt i).clamp x
      else x }

/-- Back to the baseline, with no memory of the player. -/
def reset (f : Affect) : Affect := { values := f.baseline, baseline := f.baseline }

/-- All of it is finite. -/
def isFinite (f : Affect) : Bool := Vec.isFinite f.values

/-- The strongest basic emotion; joy if none is above zero. -/
def dominant (f : Affect) : Emotion × Float32 :=
  (Emotion.all.take Emotion.basicCount).foldl
    (fun best e => if f.get e > best.2 then (e, f.get e) else best) (.joy, 0)

/-- The standing with the player, from -1 to 1: one half is warmth, the other what happened so far. -/
def level (f : Affect) : Float32 :=
  let warmth := (f.get .trust + f.get .affection + f.get .respect) / 3
  Single.signed (0.5 * (2 * warmth - 1) + 0.5 * f.get .relationshipStatus)

/-- The opinion of the player. -/
def opinion (f : Affect) : Opinion := Opinion.ofLevel f.level

/-- The agent trusts the player. -/
def trusts (f : Affect) : Bool := f.get .trust ≥ trustThreshold && f.get .trust > f.get .fear

/-- The agent likes the player. -/
def likes (f : Affect) : Bool := f.get .affection ≥ likeThreshold && f.get .affection > f.get .anger

/-- The status of the relationship, brought up to date with the good and bad encounters. -/
def refreshStatus (f : Affect) : Affect :=
  f.put .relationshipStatus
    (Single.tanh ((f.get .positiveInteractions - f.get .negativeInteractions) / 5))

/-- Shift the relationship. The change is felt at once and fades; it is also counted as part of a good or
a bad encounter, which does not. Changes that are not finite are passed over. -/
def shift (f : Affect) (change : Float32) : Affect :=
  if change.isFinite then
    let change := Single.signed change
    let f := (f.raise .trust (0.5 * change)).raise .affection (0.3 * change)
    let f :=
      if change > 0 then f.raise .positiveInteractions change
      else f.raise .negativeInteractions (-change)
    f.refreshStatus.confine
  else f

/-- Emotions and traits drift to the baseline. -/
def settle (f : Affect) (kept : Float32) : Affect :=
  { f with
    values := f.values.mapIdx fun i x =>
      if i ≤ Emotion.openness.index then
        f.baseline.getD i 0 + (x - f.baseline.getD i 0) * kept
      else x }

/-- The mood of a conversation. -/
def converse (f : Affect) (tone dt : Float32) : Affect :=
  let f :=
    if tone > 0.5 then
      (((((f.raise .trust (0.2 * dt)).raise .affection (0.1 * dt)).raise .joy (0.3 * dt)).ease .fear 0.6
        dt).ease .anger 1.2 dt).ease .loneliness 3 dt
    else if tone < -0.5 then
      (((f.raise .fear (0.3 * dt)).raise .anger (0.2 * dt)).ease .trust 3 dt).ease .affection 1.8 dt
    else f
  (f.ease .loneliness 6 dt).raise .timeTogether dt

/-- A conversation begins: it is counted as good or bad, and the first one makes an impression. -/
def meet (f : Affect) (tone : Float32) : Affect :=
  let f :=
    if tone > 0.5 then f.raise .positiveInteractions 1
    else if tone < -0.5 then f.raise .negativeInteractions 1
    else f
  if f.metPlayer then f else { f.put .firstMeetingQuality tone with metPlayer := true }

/-- The impressions that a conversation leaves. -/
def impress (f : Affect) (tone : Float32) : Affect :=
  let f := f.put .lastInteractionQuality tone
  let f := if tone > f.get .strongestPositiveMemory then f.put .strongestPositiveMemory tone else f
  if tone < f.get .strongestNegativeMemory then f.put .strongestNegativeMemory tone else f

/-- Time alone. -/
def wait (f : Affect) (dt : Float32) : Affect :=
  let f := { f with sinceInteraction := f.sinceInteraction + dt }
  if f.sinceInteraction > lonelinessDelay then f.raise .loneliness (0.06 * dt) else f

/-- Combat and danger. -/
def endure (f : Affect) (a : Archetype) (s : Stimulus) (dt : Float32) : Affect :=
  let f :=
    if s.combat > 0.5 then
      let f := f.raise .fear (0.3 * dt)
      if a.relishesCombat then f.raise .joy (0.12 * dt) else f.raise .fear (0.18 * dt)
    else f
  if s.threat > 0.7 then (f.raise .fear (0.24 * dt)).ease .trust 1.2 dt else f

/-- The situation, as it is now. -/
def observe (f : Affect) (s : Stimulus) : Affect :=
  let f := f.put .locationFamiliarity s.familiarity
  let f := f.put .socialSetting (if s.isPrivate then 1 else 0)
  let f := f.put .threatLevel s.threat
  let f := f.put .playerMood s.playerMood
  f.refreshStatus.put .sharedGoalProgress s.sharedGoal

/-- The affect after `dt` seconds, with `retention` the share of the distance to the baseline that a
second leaves. -/
def feel (f : Affect) (a : Archetype) (s : Stimulus) (retention dt : Float32) : Affect :=
  let dt := if dt.isFinite then Single.larger dt 0 else 0
  let starts := s.inConversation && !f.wasInConversation
  let f := f.settle (Single.pow retention dt)
  let f :=
    if s.inConversation then
      let f := { f.converse s.tone dt with sinceInteraction := 0 }
      let f := if starts then f.meet s.tone else f
      f.impress s.tone
    else f.wait dt
  let f := { f with wasInConversation := s.inConversation }
  ((f.endure a s dt).observe s).confine

instance : Codec Affect where
  encode f := .record [
    ("values", Codec.encode f.values),
    ("baseline", Codec.encode f.baseline),
    ("since_interaction", Codec.encode f.sinceInteraction),
    ("was_in_conversation", Codec.encode f.wasInConversation),
    ("met_player", Codec.encode f.metPlayer)]
  decode? d := do
    let r ← d.entries? ["values", "baseline", "since_interaction", "was_in_conversation", "met_player"]
    return {
      values := ← r.get "values"
      baseline := ← r.get "baseline"
      sinceInteraction := ← r.get "since_interaction"
      wasInConversation := ← r.get "was_in_conversation"
      metPlayer := ← r.get "met_player" }

end Affect

end NpcMind
