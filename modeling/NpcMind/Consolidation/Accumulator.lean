import NpcMind.Consolidation.FisherTable
import NpcMind.Single

/-!
# Estimating Fisher tables

The squares of gradients are summed up over samples. Their averages make a table, of which only the
largest entries are kept.
-/

namespace NpcMind

/-- Sums of squared gradients. -/
structure Accumulator where
  sums : Vec
  samples : UInt32 := 0

/-- What is saved of an accumulator. -/
structure AccumulatorRecord where
  samples : UInt32
  sums : List (Nat × Float32)

namespace Accumulator

/-- No samples yet. -/
def ofCount (parameterCount : Nat) : Accumulator := { sums := Vec.zeros parameterCount }

/-- No samples yet, if the sums can be addressed. -/
def allocate (parameterCount : Nat) : Outcome Accumulator := do
  requireRoom parameterCount 4
  return .ofCount parameterCount

/-- The number of parameters. -/
def parameterCount (a : Accumulator) : Nat := a.sums.size

/-- No sample was completed. -/
def isEmpty (a : Accumulator) : Bool := a.samples == 0

/-- The sums with the square of one derivative added. What is not finite or has no place is passed
over. -/
def add (a : Accumulator) (i : Nat) (g : Float32) : Accumulator :=
  if g.isFinite then
    let { sums, samples } := a
    { sums := sums.modify i (· + g * g), samples }
  else a

/-- The sums with the squares of derivatives added. -/
def addAll (a : Accumulator) (gradient : List (Nat × Float32)) : Accumulator :=
  gradient.foldl (fun a (i, g) => a.add i g) a

/-- The sample is complete. -/
def endSample (a : Accumulator) : Accumulator := { a with samples := a.samples + 1 }

/-- No samples again. -/
def reset (a : Accumulator) : Accumulator := .ofCount a.parameterCount

/-- The averages above a minimum under the keys of their places, in ascending order of the keys. -/
def averages (a : Accumulator) (minFisher : Float32) : List (Nat × Float32) :=
  let scale := 1 / a.samples.toFloat32
  let entries := a.sums.toList.zipIdx.filterMap fun (s, i) =>
    if s * scale > minFisher then some (Sparse.key i, s * scale) else none
  entries.mergeSort fun e f => e.1 ≤ f.1

/-- How many entries a density allows, at least one. -/
def cap (maxDensity : Float32) (parameterCount : Nat) : Nat :=
  max (Single.floorNat (Single.unit maxDensity * parameterCount.toFloat32)) 1

/-- The `n` largest entries, the earlier ones of equal value, in ascending order of their keys. -/
def largest (n : Nat) (entries : List (Nat × Float32)) : List (Nat × Float32) :=
  if entries.length ≤ n then entries
  else
    ((entries.mergeSort fun e f => Single.rank f.2 ≤ Single.rank e.2).take n).mergeSort
      fun e f => e.1 ≤ f.1

/-- The table of averages: only those above a minimum, and of these only the largest, as many as a
density allows. Of places with one key only the last is in it. -/
def finish (a : Accumulator) (minFisher maxDensity : Float32) : FisherTable Float32 where
  parameterCount := a.parameterCount
  entries :=
    if a.isEmpty then []
    else Sparse.lastOfEach (largest (cap maxDensity a.parameterCount) (a.averages minFisher))

/-- What is saved of the sums: those that are not zero, under the keys of their places. -/
def toRecord (a : Accumulator) : AccumulatorRecord where
  samples := a.samples
  sums := Sparse.ofEntries (a.sums.toList.zipIdx.filterMap fun (s, i) =>
    if s != 0 then some (Sparse.key i, s) else none)

/-- The accumulator with what was saved put back, if every sum has its place. -/
def restore (a : Accumulator) (r : AccumulatorRecord) : Outcome Accumulator := do
  if let some (i, _) := r.sums.getLast? then
    if a.parameterCount ≤ i then throw (.fisherIndex i a.parameterCount)
  return {
    sums := r.sums.foldl (fun sums (i, s) => sums.setIfInBounds i s) (Vec.zeros a.parameterCount)
    samples := r.samples }

/-- The table of samples of gradients. -/
def estimate (parameterCount : Nat) (samples : List (Outcome (List (Nat × Float32))))
    (minFisher maxDensity : Float32) : Outcome (FisherTable Float32) := do
  let a ← samples.foldlM
    (fun (a : Accumulator) sample => do return (a.addAll (← sample)).endSample) (← allocate parameterCount)
  return a.finish minFisher maxDensity

end Accumulator

instance : Codec AccumulatorRecord where
  encode a := .record [("samples", Codec.encode a.samples), ("sums", Sparse.toDocument a.sums)]
  decode? d := do
    let r ← d.entries? ["samples", "sums"]
    return { samples := ← r.get "samples", sums := ← Sparse.ofDocument? (← r.find? "sums") }

end NpcMind
