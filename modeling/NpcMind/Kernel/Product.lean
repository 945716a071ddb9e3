import NpcMind.Kernel.Reduction
import NpcMind.Tensor

/-!
# Products of tensors

The plain matrix product sums over the inner index entry by entry; the other one adds multiples of
whole rows. Both add the same terms in the same order, up to the first entry that has no place in its buffer.
-/

namespace NpcMind.Kernel

variable {α : Type} [OfNat α 0] [Add α] [Mul α]

/-- The product of a matrix and a vector. -/
@[specialize] def apply (b : Backend) (a : Tensor α) (x : Array α) : Array α :=
  (Array.range a.rows).map fun r => dot b (a.row r) x

/-- The product of a matrix and a vector of matching size, as long as it should be. -/
def matvec (b : Backend) (a : Tensor α) (x : Array α) (outSize : Nat) : Outcome (Array α) := do
  expectSize "matvec input" a.cols x.size
  expectSize "matvec output" a.rows outSize
  if a.isWhole then return apply b a x else throw .outOfBounds

/-- The steps for so many numbers from one on, up to the first failure. -/
@[specialize] def stepsFrom {σ : Type} (step : Nat → σ → Outcome σ) : Nat → Nat → σ → Outcome σ
  | _, 0, s => .ok s
  | i, n + 1, s => step i s >>= stepsFrom step (i + 1) n

/-- The steps for the numbers below a bound, up to the first failure. -/
@[specialize] def steps {σ : Type} (n : Nat) (s : σ) (step : Nat → σ → Outcome σ) : Outcome σ :=
  stepsFrom step 0 n s

/-- The entry of a product, summed over the inner index. -/
def entryAt? (a b : Tensor α) (i j : Nat) : Outcome α :=
  steps a.cols 0 fun k total => do return total + (← a.get? i k) * (← b.get? k j)

/-- The product entry by entry. -/
def plainProduct (c a b : Tensor α) : Outcome (Tensor α) :=
  steps a.rows c.zero fun i c => steps b.cols c fun j c => do c.set? i j (← entryAt? a b i j)

/-- The product as sums of multiples of rows. -/
def laneProduct (c a b : Tensor α) : Outcome (Tensor α) :=
  steps a.rows c.zero fun i c => steps a.cols c fun k c => do
    let s ← a.get? i k
    let xs ← b.row? k
    c.modifyRow? i (axpy .lanes s xs)

/-- The product as a backend takes it. -/
def product (backend : Backend) (c a b : Tensor α) : Outcome (Tensor α) :=
  match backend with
  | .scalar => plainProduct c a b
  | .lanes => laneProduct c a b

/-- The shapes of a product and its factors fit together. -/
def expectShapes (c a b : Tensor α) : Outcome Unit := do
  expectSize "matmul inner" a.cols b.rows
  expectSize "matmul rows" a.rows c.rows
  expectSize "matmul cols" b.cols c.cols

/-- The product of two matrices, written over a matrix of its shape. Nothing is written over a matrix of
another shape. -/
def matmul (backend : Backend) (c a b : Tensor α) : Outcome Unit × Tensor α :=
  match expectShapes c a b >>= fun _ => product backend c a b with
  | .error e => (.error e, c)
  | .ok c => (.ok (), c)

end NpcMind.Kernel
