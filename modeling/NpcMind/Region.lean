import NpcMind.Document.Codec
import NpcMind.Single

/-!
# Regions of the senses

What an agent senses in a tick is fused into 512 channels, divided into five regions.
-/

namespace NpcMind

/-- The number of sensory channels. -/
def channelCount : Nat := 512

/-- A block of sensory channels. -/
inductive Region where
  /-- The visual field, row by row. -/
  | vision
  /-- The audio spectrum. -/
  | audio
  /-- Signals about the player and the company. -/
  | social
  /-- Needs and goals. -/
  | internal
  /-- Place, time and summaries. -/
  | context
  deriving DecidableEq, Repr

namespace Region

/-- Every region, in the order of the channels. -/
def all : List Region := [.vision, .audio, .social, .internal, .context]

/-- The name of a region. -/
def name : Region → String
  | .vision => "Vision"
  | .audio => "Audio"
  | .social => "Social"
  | .internal => "Internal"
  | .context => "Context"

/-- The first channel of a region. -/
def start : Region → Nat
  | .vision => 0
  | .audio => 256
  | .social => 288
  | .internal => 320
  | .context => 352

/-- The channel after the last one of a region. -/
def stop : Region → Nat
  | .vision => 256
  | .audio => 288
  | .social => 320
  | .internal => 352
  | .context => channelCount

/-- The channel belongs to the region. -/
def contains (r : Region) (channel : Nat) : Bool := r.start ≤ channel && channel < r.stop

/-- The region that a channel belongs to. -/
def ofChannel? (channel : Nat) : Option Region := all.find? (·.contains channel)

/-- The channels of a region out of a vector of all of them. -/
def slice (r : Region) (xs : Vec) : Vec := xs.extract r.start r.stop

instance : Named Region := ⟨all, name⟩

instance : Codec Region := Named.codec

end Region

end NpcMind
