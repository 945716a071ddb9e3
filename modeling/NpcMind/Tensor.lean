import NpcMind.Error
import NpcMind.Single

/-!
# Tensors

A tensor is a matrix stored row by row, each row filled up with zeros to a multiple of eight entries.
Sizes and addresses are 64-bit words: a product or a sum that does not fit is reduced modulo `2 ^ 64`.
-/

namespace NpcMind

/-- A size or an address as a 64-bit word. -/
def wrap (n : Nat) : Nat := n % UInt64.size

/-- The number of entries that rows are filled up to a multiple of. -/
def laneCount : Nat := 8

/-- The stored length of a row of `cols` entries. -/
def paddedStride (cols : Nat) : Nat := wrap ((cols + 7) / laneCount * laneCount)

/-- The number of entries that a vector of some length holds. That is its length, unless filling it up goes
past `2 ^ 64`. -/
def vectorSize (length : Nat) : Nat := min length (paddedStride length)

/-- The number of bytes of an entry. -/
def entryBytes : Nat := 4

/-- The entries written over an array from a place on; what falls past the end is dropped. -/
def writeFrom {α : Type} (xs : Array α) (start : Nat) : List α → Array α
  | [] => xs
  | y :: ys => writeFrom (xs.setIfInBounds start y) (start + 1) ys

/-- A matrix with filled-up rows. -/
structure Tensor (α : Type) where
  rows : Nat
  cols : Nat
  /-- The rows one after the other, each with its filling. -/
  data : Array α
  deriving DecidableEq

namespace Tensor

variable {α : Type}

/-- The stored length of a row. -/
def stride (t : Tensor α) : Nat := paddedStride t.cols

/-- The number of entries without filling. -/
def size (t : Tensor α) : Nat := wrap (t.rows * t.cols)

/-- The number of stored entries. -/
def footprint (t : Tensor α) : Nat := t.data.size

/-- Every row has its place in the buffer. -/
def isWhole (t : Tensor α) : Bool :=
  t.rows = 0 || (t.cols ≤ t.stride && t.data.size = t.rows * t.stride)

/-- The matrix of zeros. -/
def zeros [OfNat α 0] (rows cols : Nat) : Tensor α :=
  ⟨rows, cols, Array.replicate (wrap (rows * paddedStride cols)) 0⟩

/-- The matrix of zeros, if its buffer can be addressed. -/
def allocate [OfNat α 0] (rows cols : Nat) : Outcome (Tensor α) := do
  requireRoom (wrap (rows * paddedStride cols)) entryBytes
  return zeros rows cols

/-- The first place of a row. -/
def rowStart (t : Tensor α) (r : Nat) : Nat := wrap (r * t.stride)

/-- The stretch of the buffer from a place on, if it lies within. -/
def slice? (t : Tensor α) (start length : Nat) : Outcome (Array α) :=
  if start ≤ wrap (start + length) ∧ wrap (start + length) ≤ t.data.size then
    .ok (t.data.extract start (wrap (start + length)))
  else .error .outOfBounds

/-- A row without its filling. -/
def row? (t : Tensor α) (r : Nat) : Outcome (Array α) := t.slice? (t.rowStart r) t.cols

/-- A row with its filling. -/
def paddedRow? (t : Tensor α) (r : Nat) : Outcome (Array α) := t.slice? (t.rowStart r) t.stride

/-- A row of a whole tensor. -/
def row (t : Tensor α) (r : Nat) : Array α := t.data.extract (r * t.stride) (r * t.stride + t.cols)

/-- The rows of a whole tensor, without filling. -/
def rowList (t : Tensor α) : List (Array α) := (List.range t.rows).map t.row

/-- The rows without filling. -/
def rows? (t : Tensor α) : Outcome (List (Array α)) :=
  if t.isWhole then .ok t.rowList else .error .outOfBounds

/-- The place of an entry in the buffer. -/
def address (t : Tensor α) (r c : Nat) : Nat := wrap (r * t.stride + c)

/-- The entry of the buffer at a row and a column; the column may lie in the filling or beyond. -/
def get? (t : Tensor α) (r c : Nat) : Outcome α :=
  match t.data[t.address r c]? with
  | some x => .ok x
  | none => .error .outOfBounds

/-- The buffer with another entry at a row and a column. -/
def set? (t : Tensor α) (r c : Nat) (x : α) : Outcome (Tensor α) :=
  if t.address r c < t.data.size then
    .ok { t with data := t.data.setIfInBounds (t.address r c) x }
  else .error .outOfBounds

/-- The buffer with a row, without its filling, put through a function that keeps its length. -/
def modifyRow? (t : Tensor α) (r : Nat) (f : Array α → Array α) : Outcome (Tensor α) := do
  let xs ← t.row? r
  return { t with data := writeFrom t.data (t.rowStart r) ((f xs).toList.take xs.size) }

/-- An entry of a whole tensor. -/
def get [OfNat α 0] (t : Tensor α) (r c : Nat) : α := t.data.getD (r * t.stride + c) 0

/-- A whole tensor with another entry. -/
def set (t : Tensor α) (r c : Nat) (x : α) : Tensor α :=
  { t with data := t.data.setIfInBounds (r * t.stride + c) x }

/-- A whole tensor with another row. -/
def setRow (t : Tensor α) (r : Nat) (xs : Array α) : Tensor α :=
  { t with data := writeFrom t.data (r * t.stride) (xs.toList.take t.cols) }

/-- The first row, which is all of a vector. -/
def values (t : Tensor α) : Array α := t.data.extract 0 (min t.cols t.data.size)

/-- The tensor with its first row put through a function that keeps its length. -/
def modifyValues (t : Tensor α) (f : Array α → Array α) : Tensor α :=
  { t with data := writeFrom t.data 0 ((f t.values).toList.take t.values.size) }

/-- The tensor with every entry of the first row replaced. -/
def setValues (t : Tensor α) (x : α) : Tensor α := t.modifyValues fun xs => Array.replicate xs.size x

/-- The tensor with every entry replaced, and the filling left alone. -/
def fill (t : Tensor α) (x : α) : Outcome (Tensor α) :=
  if t.cols = 0 then .ok t
  else if t.isWhole then
    .ok ((List.range t.rows).foldl (fun t r => t.setRow r (Array.replicate t.cols x)) t)
  else .error .outOfBounds

/-- The tensor with the whole buffer zero. -/
def zero [OfNat α 0] (t : Tensor α) : Tensor α := { t with data := Array.replicate t.data.size 0 }

/-- The matrix with the given entries, row by row. -/
def ofRows [OfNat α 0] (rows cols : Nat) (values : Array α) : Outcome (Tensor α) := do
  expectSize "tensor init" (wrap (rows * cols)) values.size
  let t : Tensor α ← allocate rows cols
  let given := values.size / cols
  if 0 < given then requireWithin ((given - 1) * t.stride + cols) t.data.size
  return (List.range given).foldl
    (fun t r => t.setRow r (values.extract (r * cols) ((r + 1) * cols))) t

/-- The matrix whose entries are given by row and column. -/
def ofFn [OfNat α 0] (rows cols : Nat) (f : Nat → Nat → α) : Tensor α :=
  let stride := paddedStride cols
  ⟨rows, cols, (Array.range (rows * stride)).map fun j =>
    if j % stride < cols then f (j / stride) (j % stride) else 0⟩

/-- A vector as a matrix of one row. -/
def ofVector [OfNat α 0] (values : Array α) : Tensor α :=
  (zeros 1 values.size : Tensor α).setRow 0 values

/-- No entry is a NaN or an infinity, filling included. -/
def isFinite (t : Tensor Float32) : Bool := Vec.isFinite t.data

end Tensor

end NpcMind
