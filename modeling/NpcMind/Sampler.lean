import NpcMind.Document.Codec
import NpcMind.Single

/-!
# Counter-based sampling

Value `n` of a stream is a function of the seed and `n` alone, so a stream is resumed by its seed and
the number of values drawn, and no clock is ever read.
-/

namespace NpcMind

/-- A seeded stream of numbers and how many were drawn from it. -/
structure Sampler where
  seed : UInt64
  counter : UInt64
  deriving DecidableEq, Repr, Inhabited

namespace Sampler

/-- The step between the positions of a stream. -/
def gamma : UInt64 := 0x9E3779B97F4A7C15

/-- Spread a word over all its bits. -/
def scramble (z : UInt64) : UInt64 :=
  let z := (z ^^^ (z >>> 30)) * 0xBF58476D1CE4E5B9
  let z := (z ^^^ (z >>> 27)) * 0x94D049BB133111EB
  z ^^^ (z >>> 31)

/-- The random bits at a position of a stream. -/
def mix (seed counter : UInt64) : UInt64 := scramble (seed + (counter + 1) * gamma)

/-- The upper 24 bits as a number from 0 up to, and without, 1. -/
def unitOfBits (bits : UInt64) : Float32 := (bits >>> 40).toFloat32 * (1 / 16777216)

/-- A stream from its start. -/
def ofSeed (seed : UInt64) : Sampler := ⟨seed, 0⟩

/-- The next bits, and the stream after them. -/
def next (s : Sampler) : UInt64 × Sampler := (mix s.seed s.counter, { s with counter := s.counter + 1 })

/-- The next number from 0 up to 1. -/
def nextUnit (s : Sampler) : Float32 × Sampler := (unitOfBits s.next.1, s.next.2)

/-- The next number from `-scale` up to `scale`. -/
def nextSymmetric (s : Sampler) (scale : Float32) : Float32 × Sampler :=
  ((s.nextUnit.1 * 2 - 1) * scale, s.nextUnit.2)

/-- The stream back at its start. -/
def rewind (s : Sampler) : Sampler := { s with counter := 0 }

instance : Codec Sampler where
  encode s := .record [("seed", Codec.encode s.seed), ("counter", Codec.encode s.counter)]
  decode? d := do
    let r ← d.entries? ["seed", "counter"]
    return { seed := ← r.get "seed", counter := ← r.get "counter" }

end Sampler

end NpcMind
