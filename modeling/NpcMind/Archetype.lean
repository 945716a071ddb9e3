import NpcMind.Action
import NpcMind.Emotion
import NpcMind.Region

/-!
# Archetypes

The personality an agent is spawned with: where its affect settles, which senses it watches, and how
it leans in choosing actions.
-/

namespace NpcMind

/-- A personality. -/
inductive Archetype where
  | warrior
  | scholar
  | merchant
  | rogue
  | guardian
  | wanderer
  | mystic
  | craftsman
  deriving DecidableEq, Repr, Inhabited

namespace Archetype

/-- Every archetype. -/
def all : List Archetype :=
  [.warrior, .scholar, .merchant, .rogue, .guardian, .wanderer, .mystic, .craftsman]

/-- The name of an archetype. -/
def name : Archetype → String
  | .warrior => "Warrior"
  | .scholar => "Scholar"
  | .merchant => "Merchant"
  | .rogue => "Rogue"
  | .guardian => "Guardian"
  | .wanderer => "Wanderer"
  | .mystic => "Mystic"
  | .craftsman => "Craftsman"

/-- The eight basic emotions and the five traits that an archetype settles at. -/
def temperament : Archetype → Vec
  | .warrior => #[0.7, 0.2, 0.6, 0.5, 0.3, 0.8, 0.4, 0.3, 0.6, 0.5, 0.8, -0.6, 0.2]
  | .scholar => #[0.5, 0.4, 0.2, 0.6, 0.9, 0.7, 0.5, 0.4, -0.2, 0.3, 0.9, -0.3, 0.9]
  | .merchant => #[0.6, 0.3, 0.3, 0.8, 0.6, 0.5, 0.6, 0.2, 0.8, 0.7, 0.6, -0.4, 0.5]
  | .rogue => #[0.3, 0.5, 0.4, 0.4, 0.7, 0.4, 0.3, 0.6, -0.3, -0.5, 0.3, 0.2, 0.8]
  | .guardian => #[0.8, 0.3, 0.5, 0.6, 0.2, 0.9, 0.7, 0.4, 0.2, 0.8, 0.9, -0.7, -0.4]
  | .wanderer => #[0.5, 0.2, 0.3, 0.8, 0.9, 0.5, 0.4, 0.5, 0.5, 0.4, -0.3, -0.5, 0.9]
  | .mystic => #[0.4, 0.3, 0.2, 0.7, 0.8, 0.6, 0.5, 0.6, -0.5, 0.2, 0.4, 0.1, 0.9]
  | .craftsman => #[0.7, 0.4, 0.3, 0.6, 0.5, 0.8, 0.6, 0.5, -0.1, 0.6, 0.9, -0.2, 0.3]

/-- The affect an archetype settles at; everything past the traits is zero. -/
def baseline (a : Archetype) : Vec :=
  a.temperament ++ Vec.zeros (Emotion.count - a.temperament.size)

/-- The region of the senses that an archetype watches from the start, and how closely. -/
def focus : Archetype → Region × Float32
  | .warrior => (.audio, 0.8)
  | .scholar => (.context, 0.9)
  | .merchant => (.social, 0.9)
  | .rogue => (.vision, 0.7)
  | .guardian => (.social, 0.8)
  | .wanderer => (.context, 0.7)
  | .mystic => (.internal, 0.9)
  | .craftsman => (.vision, 0.8)

/-- How much more than others an archetype is drawn to news from a region. -/
def regionBias (a : Archetype) (r : Region) : Float32 := if a.focus.1 = r then 1.5 else 1

/-- The factors by which an archetype favours or avoids actions. -/
def actionBiases : Archetype → List (Action × Float32)
  | .warrior => [(.attackMelee, 1.5), (.defend, 1.3), (.retreat, 0.5)]
  | .scholar => [(.askQuestion, 1.8), (.recallMemory, 1.5), (.attackMelee, 0.3)]
  | .merchant => [(.offerTrade, 1.6), (.greetFriendly, 1.4), (.attackMelee, 0.2)]
  | .rogue => [(.retreat, 1.4), (.attackRanged, 1.3), (.greetFriendly, 0.7)]
  | .guardian => [(.defend, 1.6), (.greetNeutral, 1.2), (.attackRanged, 0.8)]
  | .wanderer => [(.recallMemory, 1.4), (.tellStory, 1.3), (.defend, 0.7)]
  | .mystic => [(.expressEmotion, 1.5), (.askQuestion, 1.2), (.attackMelee, 0.4)]
  | .craftsman => [(.offerTrade, 1.3), (.greetFriendly, 1.1), (.attackRanged, 0.8)]

/-- The sound of combat lifts the mood of this archetype instead of frightening it. -/
def relishesCombat (a : Archetype) : Bool := a = .warrior

instance : Named Archetype := ⟨all, name⟩

instance : Codec Archetype := Named.codec

end Archetype

end NpcMind
