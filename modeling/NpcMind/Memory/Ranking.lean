import NpcMind.Config.Basic
import NpcMind.Kernel.Elementwise

/-!
# Rankings

The best matches seen so far, best first. Of equal scores the one seen first stays ahead, and a NaN is
no score.
-/

namespace NpcMind

/-- How alike a query and a memory are. -/
def Metric.score (m : Metric) (b : Backend) (query content : Vec) : Float32 :=
  match m with
  | .cosine => Kernel.cosine b query content
  | .dot => Kernel.dot b query content

/-- The best matches seen so far. -/
structure Ranking where
  /-- How many matches are kept. -/
  limit : Nat
  /-- Slots with their scores, best first. -/
  entries : List (Nat × Float32) := []

namespace Ranking

/-- A ranking of at most `k` matches, and never more than a read can blend. -/
def ofLimit (k : Nat) : Ranking := { limit := min k Config.maxReadHeads }

/-- Put a match at a place or further to the front. As long as the one in front of it is worse, that one moves
back by a place. -/
def climb (m : Nat × Float32) : Nat → List (Nat × Float32) → List (Nat × Float32)
  | 0, entries => entries.set 0 m
  | place + 1, entries =>
    match entries[place]? with
    | some e => if e.2 < m.2 then climb m place (entries.set (place + 1) e) else entries.set (place + 1) m
    | none => entries

/-- Every place is taken. -/
def isFull (r : Ranking) : Bool := r.entries.length = r.limit

/-- The ranking after a further match. A full one gives up its last match for a better one. -/
def offer (r : Ranking) (slot : Nat) (score : Float32) : Ranking :=
  if r.limit = 0 || score.isNaN then r
  else if r.isFull && r.entries.getLast?.any (score ≤ ·.2) then r
  else
    let entries := if r.isFull then r.entries else r.entries ++ [(slot, score)]
    { r with entries := climb (slot, score) (entries.length - 1) entries }

/-- The best match. -/
def best? (r : Ranking) : Option (Nat × Float32) := r.entries.head?

/-- The ranking of all matches in turn. -/
def ofMatches (k : Nat) (found : List (Nat × Float32)) : Ranking :=
  found.foldl (fun r m => r.offer m.1 m.2) (ofLimit k)

/-- The shares of matches in a blend, by the exponentials of their scores. -/
def shares (scores : Vec) (sharpness : Float32) : Vec :=
  let sharp := scores.map (· * sharpness)
  let top := Kernel.maximum sharp
  let powers := sharp.map fun s => Single.exp (s - top)
  let total := Vec.total powers
  powers.map (· / total)

/-- The shares of at most eight matches, in eight places. -/
def weights (scores : Vec) (sharpness : Float32) : Outcome Vec := do
  requireWithin scores.size Config.maxReadHeads
  return shares scores sharpness ++ Vec.zeros (Config.maxReadHeads - scores.size)

end Ranking

end NpcMind
