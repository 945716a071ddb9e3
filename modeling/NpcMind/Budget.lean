import NpcMind.Tensor

/-!
# Budgets

Everything an agent holds is charged against a budget of numbers when the agent is spawned, filled-up
rows included. Nothing is given back, so the budget bounds the agent for its whole life.
-/

namespace NpcMind

/-- A budget of numbers and what was taken from it. -/
structure Budget where
  capacity : Nat
  used : Nat := 0
  allocations : Nat := 0
  deriving DecidableEq, Repr

namespace Budget

/-- What is left. -/
def remaining (b : Budget) : Nat := b.capacity - b.used

/-- Charge a matrix, if there is room for it. Sizes are 64-bit words. -/
def takeMatrix (b : Budget) (rows cols : Nat) : Outcome Budget := do
  let need := wrap (rows * paddedStride cols)
  if wrap (b.used + need) > b.capacity then throw (.exhausted "tensor arena" b.capacity)
  requireRoom need entryBytes
  return { b with used := wrap (b.used + need), allocations := b.allocations + 1 }

/-- Charge a vector, if there is room for it. -/
def takeVector (b : Budget) (length : Nat) : Outcome Budget := b.takeMatrix 1 length

/-- Charge vectors of the given lengths one after the other, up to the first that there is no room for. -/
def takeVectors (b : Budget) : List Nat → Outcome Unit × Budget
  | [] => (.ok (), b)
  | n :: rest =>
    match b.takeVector n with
    | .ok b => b.takeVectors rest
    | .error e => (.error e, b)

end Budget

end NpcMind
