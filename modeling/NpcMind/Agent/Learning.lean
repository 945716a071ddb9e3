import NpcMind.Agent.Tick

/-!
# Learning from rewards

A reward moves the parameters towards the latest action, a punishment away from it, and the tasks that
were consolidated pull them back. An agent that shared its parameters has its own from then on.
-/

namespace NpcMind.Agent

/-- What is added to the parameters for a reward. After a decision by reflex there is nothing to reward. -/
def rewardUpdates (a : Agent) (pools : StatePools) (c : Config) (reward : Float32) :
    Outcome (List (Nat × Float32)) := do
  if a.ticks > 0 && !a.decision.degraded && reward.isFinite then
    let scale := c.temper.adaptationRate * reward
    return (← a.policyGradient pools c.controller.logitScale).map fun (i, g) => (i, scale * g)
  else return []

/-- What is added to the parameters by the pull of the consolidated tasks. -/
def penaltyUpdates (a : Agent) (c : Config) (current : Vec) : Outcome (List (Nat × Float32)) := do
  return (← a.consolidator.penaltyGradient current).map fun (i, g) => (i, -c.temper.adaptationRate * g)

/-- The agent with updates of its parameters applied one after the other. -/
def applyUpdates (a : Agent) (stack : Stack) (updates : List (Nat × Float32)) : Agent :=
  if updates.isEmpty then a
  else { a with
    controller := some (updates.foldl (fun s (i, delta) => s.addTo i delta) stack)
    binding := if a.binding = .shared then .perAgent else a.binding }

/-- The penalty on the agent's parameters. -/
def penalty (a : Agent) : Outcome (PenaltyReport Float32) :=
  match a.controller with
  | some stack => a.consolidator.penalty stack.flatten
  | none => .ok ⟨0, 0, 0⟩

/-- Reward or punish the latest decision, and give the penalty afterwards. -/
def reinforce (a : Agent) (pools : StatePools) (c : Config) (reward : Float32) :
    Outcome (PenaltyReport Float32 × Agent) := do
  match a.controller with
  | none => throw (.config "detached agents have no parameters to adapt")
  | some stack =>
    let rewards ← a.rewardUpdates pools c reward
    let pulls ← a.penaltyUpdates c stack.flatten
    let a := a.applyUpdates stack (rewards ++ pulls)
    return (← a.penalty, a)

end NpcMind.Agent
