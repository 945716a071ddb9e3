import NpcMind.Budget
import NpcMind.Config.Basic
import NpcMind.Mind.Percept

/-!
# Attention

Each channel has an attention that fades and is renewed by what departs from expectation. The presence
of the player draws attention to where it matters. Four neighbouring channels at a time are summarised
in working memory.
-/

namespace NpcMind

/-- The number of places of working memory. -/
def workingMemorySize : Nat := channelCount / 4

/-- The least novelty of a tick. -/
def leastNovelty : Float32 := 0.1

/-- What an agent attends to and expects. -/
structure Attention where
  /-- The attention paid to each channel. -/
  levels : Vec
  /-- The value expected of each channel. -/
  expectation : Vec
  workingMemory : Vec
  /-- The mean novelty of the last tick. -/
  novelty : Float32 := leastNovelty

namespace Attention

/-- The attention of an archetype that has sensed nothing yet. -/
def initial (a : Archetype) : Attention where
  levels := (Array.range channelCount).map fun i => if a.focus.1.contains i then a.focus.2 else 0
  expectation := Vec.zeros channelCount
  workingMemory := Vec.zeros workingMemorySize

instance : Inhabited Attention := ⟨initial default⟩

/-- Charge attention to a budget. -/
def charge (b : Budget) : Outcome Unit × Budget :=
  b.takeVectors [channelCount, channelCount, workingMemorySize]

/-- All of it is finite. -/
def isFinite (t : Attention) : Bool :=
  Vec.isFinite t.levels && Vec.isFinite t.expectation && Vec.isFinite t.workingMemory

/-- How far a channel is from expectation. -/
def surprise (expected sensed : Float32) : Float32 := (sensed - expected).abs

/-- The attention to a channel after fading and, if it is new enough, being renewed. -/
def renew (a : Archetype) (c : Config.Temper) (r : Region) (level expected sensed : Float32) : Float32 :=
  let faded := level * c.attentionDecay
  let novelty := surprise expected sensed
  if novelty > c.noveltyThreshold then
    Single.smaller (faded + novelty * a.baseline.getD Emotion.curiosity.index 0 * a.regionBias r) 1
  else faded

/-- The attention to a channel of a region that the player's presence leaves. -/
def attract (p : Percept) (inConversation : Bool) (r : Region) (level : Float32) : Float32 :=
  match r with
  | .vision => if p.playerVisible then Single.larger level 0.8 else level
  | .social =>
    if p.playerVisible then Single.larger level 0.9
    else if inConversation then level
    else level * 0.5
  | .audio => if p.playerSpeaking then Single.larger level 0.95 else level
  | _ => level

/-- The mean novelty of channels, each counted up to 1, and never below the least. -/
def meanNovelty (expectation channels : Vec) : Float32 :=
  let total := Vec.total ((Array.range channelCount).map fun i =>
    Single.smaller (surprise (expectation.getD i 0) (channels.getD i 0)) 1)
  Single.larger (total / channelCount.toFloat32) leastNovelty

/-- The attention after a tick. -/
def update (t : Attention) (channels : Vec) (p : Percept) (inConversation : Bool) (a : Archetype)
    (c : Config.Temper) : Attention :=
  let levels := t.levels.mapIdx fun i level =>
    match Region.ofChannel? i with
    | some r =>
      attract p inConversation r (renew a c r level (t.expectation.getD i 0) (channels.getD i 0))
    | none => level
  { levels
    expectation := t.expectation.mapIdx fun i e => e + c.expectationRate * (channels.getD i 0 - e)
    workingMemory := t.workingMemory.mapIdx fun slot w =>
      let attended := (Array.range 4).map fun j =>
        channels.getD (slot * 4 + j) 0 * levels.getD (slot * 4 + j) 0
      w + c.workingMemoryRate * (Vec.total attended / 4 - w)
    novelty := meanNovelty t.expectation channels }

/-- The channels weighed by attention. -/
def attend (t : Attention) (channels : Vec) : Vec := Array.zipWith (· * ·) channels t.levels

end Attention

end NpcMind
