import NpcMind.Document.Codec

/-!
# Actions

The actions an agent can choose. Their order is the order of every distribution over actions.
-/

namespace NpcMind

/-- What an agent does in one tick. -/
inductive Action where
  | idle
  | moveNorth
  | moveSouth
  | moveEast
  | moveWest
  | greetFriendly
  | greetNeutral
  | greetHostile
  | tellStory
  | askQuestion
  | expressEmotion
  | attackMelee
  | attackRanged
  | defend
  | retreat
  | offerTrade
  | acceptTrade
  | declineTrade
  | recallMemory
  | storeMemory
  | shareExperience
  deriving DecidableEq, Repr, Inhabited

/-- Broad groups of actions. -/
inductive ActionGroup where
  | idle
  | movement
  | social
  | combat
  | trade
  | memory
  deriving DecidableEq, Repr

namespace ActionGroup

/-- The name of a group. -/
def name : ActionGroup → String
  | .idle => "Idle"
  | .movement => "Movement"
  | .social => "Social"
  | .combat => "Combat"
  | .trade => "Trade"
  | .memory => "Memory"

/-- Every group. -/
def all : List ActionGroup := [.idle, .movement, .social, .combat, .trade, .memory]

instance : Named ActionGroup := ⟨all, name⟩

instance : Codec ActionGroup := Named.codec

end ActionGroup

namespace Action

/-- The number of actions. -/
def count : Nat := 21

/-- Every action, in the order of distributions. -/
def all : List Action :=
  [.idle, .moveNorth, .moveSouth, .moveEast, .moveWest, .greetFriendly, .greetNeutral,
   .greetHostile, .tellStory, .askQuestion, .expressEmotion, .attackMelee, .attackRanged,
   .defend, .retreat, .offerTrade, .acceptTrade, .declineTrade, .recallMemory, .storeMemory,
   .shareExperience]

/-- The name of an action. -/
def name : Action → String
  | .idle => "None"
  | .moveNorth => "MoveNorth"
  | .moveSouth => "MoveSouth"
  | .moveEast => "MoveEast"
  | .moveWest => "MoveWest"
  | .greetFriendly => "GreetFriendly"
  | .greetNeutral => "GreetNeutral"
  | .greetHostile => "GreetHostile"
  | .tellStory => "TellStory"
  | .askQuestion => "AskQuestion"
  | .expressEmotion => "ExpressEmotion"
  | .attackMelee => "AttackMelee"
  | .attackRanged => "AttackRanged"
  | .defend => "Defend"
  | .retreat => "Retreat"
  | .offerTrade => "OfferTrade"
  | .acceptTrade => "AcceptTrade"
  | .declineTrade => "DeclineTrade"
  | .recallMemory => "RecallMemory"
  | .storeMemory => "StoreMemory"
  | .shareExperience => "ShareExperience"

/-- The place of an action in a distribution. -/
def index (a : Action) : Nat := a.ctorIdx

/-- The action at a place of a distribution. -/
def ofIndex? (i : Nat) : Option Action := all[i]?

/-- The group of an action. -/
def group : Action → ActionGroup
  | .idle => .idle
  | .moveNorth | .moveSouth | .moveEast | .moveWest => .movement
  | .greetFriendly | .greetNeutral | .greetHostile | .tellStory | .askQuestion | .expressEmotion => .social
  | .attackMelee | .attackRanged | .defend | .retreat => .combat
  | .offerTrade | .acceptTrade | .declineTrade => .trade
  | .recallMemory | .storeMemory | .shareExperience => .memory

/-- The action makes sense only with someone to address. -/
def needsInterlocutor (a : Action) : Bool :=
  a.group = .social || a.group = .trade || a = .shareExperience

instance : Named Action := ⟨all, name⟩

instance : Codec Action := Named.codec

end Action

end NpcMind
