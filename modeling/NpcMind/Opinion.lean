import NpcMind.Document.Codec

/-!
# Opinions

How an agent regards the player, read off the level of their relationship.
-/

namespace NpcMind

/-- How an agent regards the player. -/
inductive Opinion where
  | hostile
  | distrustful
  | neutral
  | friendly
  | devoted
  deriving DecidableEq, Repr

instance : Inhabited Opinion := ⟨.neutral⟩

namespace Opinion

/-- The opinion at a level between -1 and 1; a NaN reads as neutral. -/
def ofLevel (level : Float32) : Opinion :=
  if level < -0.5 then .hostile
  else if level < -0.15 then .distrustful
  else if level ≤ 0.15 then .neutral
  else if level ≤ 0.5 then .friendly
  else if 0.5 < level then .devoted
  else .neutral

/-- The name of an opinion. -/
def name : Opinion → String
  | .hostile => "Hostile"
  | .distrustful => "Distrustful"
  | .neutral => "Neutral"
  | .friendly => "Friendly"
  | .devoted => "Devoted"

/-- The word for an opinion. -/
def word : Opinion → String
  | .hostile => "hostile"
  | .distrustful => "distrustful"
  | .neutral => "neutral"
  | .friendly => "friendly"
  | .devoted => "devoted"

/-- What an agent of that opinion says about the player. -/
def line : Opinion → String
  | .hostile => "I want nothing to do with them."
  | .distrustful => "I keep an eye on that one."
  | .neutral => "I hardly know them."
  | .friendly => "Good company, that one."
  | .devoted => "I would follow them anywhere."

instance : Named Opinion := ⟨[.hostile, .distrustful, .neutral, .friendly, .devoted], name⟩

instance : Codec Opinion := Named.codec

end Opinion

end NpcMind
