import NpcMind.Archetype
import NpcMind.Uuid

/-!
# Profiles

The fixed description of an agent that a game supplies when it spawns one.
-/

namespace NpcMind

/-- Who an agent is. -/
structure Profile where
  id : Uuid
  name : String
  archetype : Archetype
  background : Option String
  deriving DecidableEq, Inhabited

instance : Codec Profile where
  encode p := .record [
    ("id", Codec.encode p.id),
    ("name", Codec.encode p.name),
    ("archetype", Codec.encode p.archetype),
    ("background", Codec.encode p.background)]
  decode? d := do
    let r ← d.entries? ["id", "name", "archetype", "background"]
    return {
      id := ← r.get "id"
      name := ← r.get "name"
      archetype := ← r.get "archetype"
      background := ← r.get "background" }

end NpcMind
