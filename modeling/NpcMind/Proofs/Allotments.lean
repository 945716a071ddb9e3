import NpcMind.Budget
import NpcMind.Proofs.Matrices

/-!
# What budgets hand out

A demand takes as many numbers as its rows have, each filled up to a multiple of eight. This extent, what was taken
before and their sum are reckoned in 64 bits. As long as they stay below `2 ^ 64`, a demand is met exactly if it fits
into what is left of the budget, what was taken is the sum of all extents, and every row that was handed out can be read.
From `2 ^ 64` on a demand never fits, and is met all the same if what is left of the sum is within the capacity.
-/

namespace NpcMind.Budget

open Outcome

/-- What is asked of a budget: a matrix or a vector, with sizes that are words. -/
inductive Demand where
  | matrix (rows cols : UInt64)
  | vector (length : UInt64)

namespace Demand

def rows : Demand → Nat
  | .matrix rows _ => rows.toNat
  | .vector _ => 1

def cols : Demand → Nat
  | .matrix _ cols => cols.toNat
  | .vector length => length.toNat

/-- The numbers that a demand takes, filling included: how many there would have to be, whatever a word can hold. -/
def extent (d : Demand) : Nat := d.rows * ((d.cols + 7) / laneCount * laneCount)

theorem cols_lt (d : Demand) : d.cols < UInt64.size := by
  cases d with
  | matrix _ cols => exact cols.toNat_lt
  | vector length => exact length.toNat_lt

end Demand

/-- Charge a demand. -/
def take (b : Budget) : Demand → Outcome Budget
  | .matrix rows cols => b.takeMatrix rows.toNat cols.toNat
  | .vector length => b.takeVector length.toNat

/-- Charge a demand and hand out zeros. What is refused leaves the budget as it is. -/
def serve (b : Budget) (d : Demand) : Outcome (Tensor Float32) × Budget :=
  match b.take d with
  | .ok after => (Tensor.allocate d.rows d.cols, after)
  | .error e => (.error e, b)

/-- What a budget handed out so far, the latest first, and what became of it. Demands are met or refused, in any
order; after a fault there is nothing more to be asked. -/
inductive Allotted (capacity : UInt64) : List (Demand × Tensor Float32) → Budget → Prop
  | fresh : Allotted capacity [] { capacity := capacity.toNat }
  | granted {granted : List (Demand × Tensor Float32)} {b after : Budget} {d : Demand} {t : Tensor Float32} :
      Allotted capacity granted b → b.serve d = (.ok t, after) → Allotted capacity ((d, t) :: granted) after
  | refused {granted : List (Demand × Tensor Float32)} {b after : Budget} {d : Demand} {resource : String} {n : Nat} :
      Allotted capacity granted b → b.serve d = (.error (.exhausted resource n), after) →
      Allotted capacity granted after

/-- All that was handed out, filling included. -/
def total (granted : List (Demand × Tensor Float32)) : Nat := (granted.map fun g => g.1.extent).foldr (· + ·) 0

variable {b after : Budget} {d : Demand} {t : Tensor Float32} {capacity : UInt64}
  {granted : List (Demand × Tensor Float32)}

/-! ### Words -/

theorem wrap_lt (n : Nat) : wrap n < UInt64.size := Nat.mod_lt n (by decide)

theorem wrap_of_lt {n : Nat} (h : n < UInt64.size) : wrap n = n := Nat.mod_eq_of_lt h

theorem wrap_extent (d : Demand) : wrap (d.rows * paddedStride d.cols) = wrap d.extent := Nat.mul_mod_mod _ _ _

theorem wrap_add_wrap (m n : Nat) : wrap (m + wrap n) = wrap (m + n) := Nat.add_mod_mod m n _

theorem wrap_wrap_add (m n : Nat) : wrap (wrap m + n) = wrap (m + n) := Nat.mod_add_mod m _ n

/-- A sum past all words is not within what is left. -/
theorem remaining_lt (h : b.used ≤ b.capacity) (hc : b.capacity < UInt64.size)
    (hpast : UInt64.size ≤ b.used + d.extent) : b.remaining < d.extent := by
  unfold remaining
  omega

/-! ### One demand -/

/-- The budget after a demand was met. -/
def charged (b : Budget) (d : Demand) : Budget :=
  { b with used := wrap (b.used + d.extent), allocations := b.allocations + 1 }

/-- A demand is met or refused by what is left of the sum, and only then by its own size. -/
theorem take_eq (b : Budget) (d : Demand) : b.take d =
    if b.capacity < wrap (b.used + d.extent) then .error (.exhausted "tensor arena" b.capacity)
    else if wrap d.extent * entryBytes < UInt64.size / 2 then .ok (b.charged d)
    else .error (.fault .tooLarge) := by
  have htake : b.take d = b.takeMatrix d.rows d.cols := by cases d <;> rfl
  rw [htake]
  unfold takeMatrix requireRoom
  rw [wrap_extent]
  dsimp only
  rw [wrap_add_wrap]
  split
  · rfl
  · split <;> rfl

theorem allocate_eq (h : wrap d.extent * entryBytes < UInt64.size / 2) :
    (Tensor.allocate d.rows d.cols : Outcome (Tensor Float32)) = .ok (.zeros d.rows d.cols) := by
  unfold Tensor.allocate requireRoom
  rw [wrap_extent, if_pos h]
  rfl

theorem serve_eq (b : Budget) (d : Demand) : b.serve d =
    if b.capacity < wrap (b.used + d.extent) then (.error (.exhausted "tensor arena" b.capacity), b)
    else if wrap d.extent * entryBytes < UInt64.size / 2 then (.ok (.zeros d.rows d.cols), b.charged d)
    else (.error (.fault .tooLarge), b) := by
  rw [serve, take_eq]
  by_cases hover : b.capacity < wrap (b.used + d.extent)
  · rw [if_pos hover, if_pos hover]
  · rw [if_neg hover, if_neg hover]
    by_cases hroom : wrap d.extent * entryBytes < UInt64.size / 2
    · rw [if_pos hroom, if_pos hroom, allocate_eq hroom]
    · rw [if_neg hroom, if_neg hroom]

theorem charged_used (h : b.used + d.extent < UInt64.size) : (b.charged d).used = b.used + d.extent := wrap_of_lt h

/-! ### Rows -/

/-- Every row that was asked for can be read, with all its entries. -/
def Readable (d : Demand) (t : Tensor Float32) : Prop := ∀ r < d.rows, ∃ row, t.row? r = .ok row ∧ row.size = d.cols

/-- Below `2 ^ 64` no size is reduced. -/
theorem fits_zeros_iff (hrows : d.rows ≠ 0) :
    (Tensor.zeros d.rows d.cols : Tensor Float32).Fits ↔ d.extent < UInt64.size := by
  have hcols := d.cols_lt
  have hstride : (Tensor.zeros d.rows d.cols : Tensor Float32).stride = wrap ((d.cols + 7) / 8 * 8) := rfl
  have hle : (d.cols + 7) / 8 * 8 ≤ d.extent := Nat.le_mul_of_pos_left _ (Nat.pos_of_ne_zero hrows)
  constructor
  · rintro ⟨hfirst, hsecond⟩
    rw [hstride] at hfirst hsecond
    replace hfirst : d.cols ≤ wrap ((d.cols + 7) / 8 * 8) := hfirst
    have hword : (d.cols + 7) / 8 * 8 < UInt64.size := by
      unfold wrap UInt64.size at *
      omega
    rw [wrap_of_lt hword] at hsecond
    exact hsecond
  · intro hextent
    have hword : (d.cols + 7) / 8 * 8 < UInt64.size := Nat.lt_of_le_of_lt hle hextent
    refine ⟨?_, ?_⟩
    · rw [hstride, wrap_of_lt hword]
      show d.cols ≤ _
      omega
    · rw [hstride, wrap_of_lt hword]
      exact hextent

theorem size_zeros (d : Demand) : (Tensor.zeros d.rows d.cols : Tensor Float32).footprint = wrap d.extent := by
  rw [← wrap_extent]
  exact Array.size_replicate

/-- **What is handed out has all its rows** exactly if its extent is below `2 ^ 64`. -/
theorem readable_zeros_iff (h : wrap d.extent * entryBytes < UInt64.size / 2) :
    Readable d (.zeros d.rows d.cols) ↔ d.extent < UInt64.size := by
  have hlaid := Tensor.laidOut_allocate d.cols_lt (allocate_eq h)
  by_cases hrows : d.rows = 0
  · refine iff_of_true (fun r hr => absurd hr (by omega)) ?_
    rw [Demand.extent, hrows, Nat.zero_mul]
    decide
  rw [← fits_zeros_iff hrows]
  constructor
  · refine fun hread => Classical.byContradiction fun hfits => ?_
    obtain ⟨r, hr, hmissing⟩ := hlaid.exists_missing hfits hrows
    have hcols : d.cols ≠ 0 := fun hzero => hfits (Tensor.fits_of_cols hzero)
    obtain ⟨row, hrow, -⟩ := hread r hr
    rw [Tensor.row?_missing d.cols_lt hcols hmissing] at hrow
    cases hrow
  · intro hfits r hr
    have hintact := hlaid.intact hfits
    have hend := hintact.rowEnd hr
    refine ⟨_, hintact.row?_eq hr, ?_⟩
    rw [Tensor.row, Array.size_extract, Nat.min_eq_left hend, Nat.add_sub_cancel_left]
    rfl

/-! ### All demands -/

/-- What is true of a budget whatever was asked of it. -/
structure Balanced (capacity : UInt64) (granted : List (Demand × Tensor Float32)) (b : Budget) : Prop where
  capacity : b.capacity = capacity.toNat
  within : b.used ≤ b.capacity
  used : b.used = wrap (total granted)
  handed : ∀ g ∈ granted, g.2 = .zeros g.1.rows g.1.cols ∧ wrap g.1.extent * entryBytes < UInt64.size / 2

/-- What a met demand says. -/
theorem of_serve (h : b.serve d = (.ok t, after)) : t = .zeros d.rows d.cols ∧ after = b.charged d ∧
    wrap (b.used + d.extent) ≤ b.capacity ∧ wrap d.extent * entryBytes < UInt64.size / 2 := by
  rw [serve_eq] at h
  split at h
  · cases h
  · next hover =>
    split at h
    · next hroom =>
      cases h
      exact ⟨rfl, rfl, Nat.le_of_not_lt hover, hroom⟩
    · cases h

theorem of_refusal {e : Error} (h : b.serve d = (.error e, after)) : after = b := by
  rw [serve_eq] at h
  split at h
  · cases h
    rfl
  · split at h
    · cases h
    · cases h
      rfl

theorem Allotted.balanced (h : Allotted capacity granted b) : Balanced capacity granted b := by
  induction h with
  | fresh => exact ⟨rfl, Nat.zero_le _, rfl, fun g hg => by cases hg⟩
  | granted _ hserve ih =>
    obtain ⟨rfl, rfl, hwithin, hroom⟩ := of_serve hserve
    refine ⟨ih.capacity, hwithin, ?_, fun g hg => ?_⟩
    · show wrap (_ + _) = wrap (_ + total _)
      rw [ih.used, wrap_wrap_add, Nat.add_comm]
    · rcases List.mem_cons.mp hg with rfl | hg
      · exact ⟨rfl, hroom⟩
      · exact ih.handed g hg
  | refused _ hserve ih => rwa [of_refusal hserve]

theorem Balanced.capacity_lt (h : Balanced capacity granted b) : b.capacity < UInt64.size := by
  rw [h.capacity]
  exact capacity.toNat_lt

theorem extent_le_total {g : Demand × Tensor Float32} (hg : g ∈ granted) : g.1.extent ≤ total granted := by
  induction granted with
  | nil => cases hg
  | cons a rest ih =>
    show _ ≤ a.1.extent + total rest
    rcases List.mem_cons.mp hg with rfl | hg
    · exact Nat.le_add_right _ _
    · exact Nat.le_trans (ih hg) (Nat.le_add_left _ _)

theorem Balanced.readable_iff (h : Balanced capacity granted b) {g : Demand × Tensor Float32} (hg : g ∈ granted) :
    Readable g.1 g.2 ↔ g.1.extent < UInt64.size := by
  obtain ⟨hzeros, hroom⟩ := h.handed g hg
  rw [hzeros, readable_zeros_iff hroom]

/-- Demands that leave room for the whole capacity below `2 ^ 64` never add up to that much. -/
theorem Allotted.total_lt (h : Allotted capacity granted b)
    (hsmall : ∀ g ∈ granted, g.1.extent + capacity.toNat < UInt64.size) : total granted < UInt64.size := by
  induction h with
  | fresh => decide
  | @granted granted b after d t hbefore hserve ih =>
    have hrest := ih fun g hg => hsmall g (List.mem_cons_of_mem _ hg)
    have hbalanced := hbefore.balanced
    have hused := hbalanced.used
    rw [wrap_of_lt hrest] at hused
    have hwithin := hbalanced.within
    rw [hbalanced.capacity] at hwithin
    have hfirst : d.extent + capacity.toNat < UInt64.size := hsmall (d, t) List.mem_cons_self
    show d.extent + total granted < _
    omega
  | refused _ _ ih => exact ih hsmall

/-- **Budgets are exact below `2 ^ 64`.** Let `granted` be all that the budget `b` handed out. `b.used` is at most
`b.capacity` and is `total granted` as a word of 64 bits; below `2 ^ 64` it is that total, and every grant is
`Readable`. The total stays below if no extent comes to `2 ^ 64` with the capacity. A further demand `d` that stays
below with `b.used` is refused if it is more than `b.remaining`, is a fault if its buffer cannot be addressed, and
else is met and charged with `d.extent`. One that does not stay below is more than `b.remaining`, but is met if the
wrapped sum is within the capacity and the wrapped buffer can be addressed: it is charged with less than `d.extent`,
and is `Readable` only if `d.extent` is below `2 ^ 64`. -/
theorem Allotted.right_below_words (h : Allotted capacity granted b) (d : Demand) :
    (b.capacity = capacity.toNat ∧ b.used ≤ b.capacity ∧ b.used = wrap (total granted)) ∧
    (∀ g ∈ granted, g.2.footprint = wrap g.1.extent ∧ (Readable g.1 g.2 ↔ g.1.extent < UInt64.size)) ∧
    (total granted < UInt64.size → b.used = total granted ∧ ∀ g ∈ granted, Readable g.1 g.2) ∧
    ((∀ g ∈ granted, g.1.extent + capacity.toNat < UInt64.size) → total granted < UInt64.size) ∧
    (b.used + d.extent < UInt64.size →
      (b.remaining < d.extent → b.serve d = (.error (.exhausted "tensor arena" b.capacity), b)) ∧
      (d.extent ≤ b.remaining → d.extent * entryBytes < UInt64.size / 2 → ∃ t, b.serve d = (.ok t, b.charged d) ∧
        (b.charged d).used = b.used + d.extent ∧ t.footprint = d.extent ∧ Readable d t) ∧
      (d.extent ≤ b.remaining → UInt64.size / 2 ≤ d.extent * entryBytes →
        (b.serve d).1 = .error (.fault .tooLarge))) ∧
    (UInt64.size ≤ b.used + d.extent → b.remaining < d.extent ∧
      ((∃ t after, b.serve d = (.ok t, after)) ↔
        wrap (b.used + d.extent) ≤ b.capacity ∧ wrap d.extent * entryBytes < UInt64.size / 2) ∧
      ∀ t after, b.serve d = (.ok t, after) →
        after.used < b.used + d.extent ∧ (Readable d t ↔ d.extent < UInt64.size)) := by
  have hbalanced := h.balanced
  have hcapacity := hbalanced.capacity_lt
  have hwithin := hbalanced.within
  refine ⟨⟨hbalanced.capacity, hwithin, hbalanced.used⟩, fun g hg => ⟨?_, hbalanced.readable_iff hg⟩, fun htotal => ?_,
    h.total_lt, fun hbelow => ?_, fun hpast => ?_⟩
  · rw [(hbalanced.handed g hg).1, size_zeros]
  · refine ⟨hbalanced.used.trans (wrap_of_lt htotal), fun g hg => (hbalanced.readable_iff hg).mpr ?_⟩
    exact Nat.lt_of_le_of_lt (extent_le_total hg) htotal
  · have hextent : d.extent < UInt64.size := Nat.lt_of_le_of_lt (Nat.le_add_left _ _) hbelow
    rw [serve_eq, wrap_of_lt hbelow, wrap_of_lt hextent]
    refine ⟨fun hover => ?_, fun hfits hroom => ?_, fun hfits hroom => ?_⟩
    · rw [if_pos (by unfold remaining at hover; omega)]
    · rw [if_neg (by unfold remaining at hfits; omega), if_pos hroom]
      refine ⟨_, rfl, charged_used hbelow, (size_zeros d).trans (wrap_of_lt hextent), ?_⟩
      exact (readable_zeros_iff (by rwa [wrap_of_lt hextent])).mpr hextent
    · rw [if_neg (by unfold remaining at hfits; omega), if_neg (Nat.not_lt.mpr hroom)]
  · refine ⟨remaining_lt hwithin hcapacity hpast, ⟨?_, fun hmet => ?_⟩, fun t after hserve => ?_⟩
    · rintro ⟨t, after, hserve⟩
      obtain ⟨-, -, hsum, hroom⟩ := of_serve hserve
      exact ⟨hsum, hroom⟩
    · rw [serve_eq, if_neg (Nat.not_lt.mpr hmet.1), if_pos hmet.2]
      exact ⟨_, _, rfl⟩
    · obtain ⟨rfl, rfl, -, hroom⟩ := of_serve hserve
      exact ⟨Nat.lt_of_lt_of_le (wrap_lt _) hpast, readable_zeros_iff hroom⟩

/-- A budget of 32 numbers has handed out a vector of ten, and charged sixteen. It goes on to hand out a matrix of two
rows with `2 ^ 63` entries each, for which it charges nothing, and which has a row that cannot be read. -/
theorem right_below_words_not_at_them : ∃ t,
    Allotted 32 [(.vector 10, t)] ⟨32, 16, 1⟩ ∧ Readable (.vector 10) t ∧
    (⟨32, 16, 1⟩ : Budget).remaining < (Demand.matrix 2 0x8000000000000000).extent ∧
    ∃ u, serve ⟨32, 16, 1⟩ (.matrix 2 0x8000000000000000) = (.ok u, ⟨32, 16, 2⟩) ∧
      ¬ Readable (.matrix 2 0x8000000000000000) u := by
  have hfirst : serve { capacity := 32 } (.vector 10) = (.ok (.zeros 1 10), ⟨32, 16, 1⟩) := serve_eq _ _
  have hsecond : serve ⟨32, 16, 1⟩ (.matrix 2 0x8000000000000000) = (.ok (.zeros 2 0x8000000000000000), ⟨32, 16, 2⟩) :=
    serve_eq _ _
  have hbefore : Allotted 32 [(.vector 10, .zeros 1 10)] ⟨32, 16, 1⟩ := .granted .fresh hfirst
  obtain ⟨-, -, hright, -, -, hwrong⟩ := hbefore.right_below_words (.matrix 2 0x8000000000000000)
  obtain ⟨hlarge, -, hmet⟩ := hwrong (by decide)
  refine ⟨_, hbefore, (hright (by decide)).2 _ List.mem_cons_self, hlarge, _, hsecond, fun hread => ?_⟩
  exact absurd ((hmet _ _ hsecond).2.mp hread) (by decide)

end NpcMind.Budget
