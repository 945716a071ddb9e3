import NpcMind.Decision
import NpcMind.Mind.Percept

/-!
# Acting by reflex

When the controller cannot run, simple rules decide: danger comes before conversation, and otherwise
nothing is done.
-/

namespace NpcMind.Decision

/-- The agent is in danger. -/
def isThreatened (p : Percept) : Bool := p.threat > 0.5 || p.combat > 0.5

/-- Someone talks to the agent. -/
def isAddressed (p : Percept) (e : Encounter) : Bool := e.inConversation || p.playerSpeaking

/-- What an agent does by reflex. -/
def reflexAction (p : Percept) (e : Encounter) : Action :=
  if isThreatened p then .retreat else if isAddressed p e then .greetNeutral else .idle

/-- The decision by reflex. -/
def byReflex (d : Decision) (p : Percept) (e : Encounter) : Decision :=
  { d with
    action := reflexAction p e
    confidence := 1
    intensity := if isThreatened p then 1 else 0.5
    movement := (0, 0)
    speed := if isThreatened p then 1 else 0
    memoryWriteSignal := 0
    learningRate := 0
    degraded := true }

end NpcMind.Decision
