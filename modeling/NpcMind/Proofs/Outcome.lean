import NpcMind.Error

/-!
# Outcomes

How a chain of fallible steps succeeds or fails, which errors it can fail with, and how two such chains
run side by side.
-/

namespace NpcMind.Outcome

variable {α β γ δ : Type}

theorem ok_of_bind {x : Outcome α} {f : α → Outcome β} {b : β} (h : (x >>= f) = .ok b) :
    ∃ a, x = .ok a ∧ f a = .ok b := by
  cases x with
  | error e => cases h
  | ok a => exact ⟨a, rfl, h⟩

theorem not_ok_of_error {x : Outcome α} {e : Error} (h : x = .error e) : ¬ ∃ a, x = .ok a := by
  rw [h]
  rintro ⟨a, ha⟩
  cases ha

theorem of_tolerate {x : Outcome α} {a : α} (h : x.tolerate = .ok (some a)) : x = .ok a := by
  unfold tolerate at h
  split at h <;> cases h
  rfl

theorem expectSize_ok (operation : String) (n : Nat) : expectSize operation n n = .ok () := if_pos rfl

theorem eq_of_expectSize {operation : String} {m n : Nat} (h : expectSize operation m n = .ok ()) :
    m = n := by
  unfold expectSize at h
  split at h
  · assumption
  · cases h

theorem requireWithin_ok {index bound : Nat} (h : index ≤ bound) : requireWithin index bound = .ok () :=
  if_pos h

theorem le_of_requireWithin {index bound : Nat} (h : requireWithin index bound = .ok ()) : index ≤ bound := by
  unfold requireWithin at h
  split at h
  · assumption
  · cases h

theorem lt_of_requireRoom {count bytes : Nat} (h : requireRoom count bytes = .ok ()) :
    count * bytes < UInt64.size / 2 := by
  unfold requireRoom at h
  split at h
  · assumption
  · cases h

/-! ### Which errors there can be -/

/-- Whatever it fails with is of the given kind. -/
def FailsBy (P : Error → Prop) (x : Outcome α) : Prop := ∀ e, x = .error e → P e

variable {P : Error → Prop}

theorem failsBy_ok (a : α) : FailsBy P (.ok a : Outcome α) := fun _ h => by cases h

theorem failsBy_error {e : Error} (he : P e) : FailsBy P (.error e : Outcome α) := fun _ h => by
  cases h
  exact he

theorem FailsBy.bind {x : Outcome α} {f : α → Outcome β} (hx : FailsBy P x)
    (hf : ∀ a, FailsBy P (f a)) : FailsBy P (x >>= f) := by
  cases x with
  | error e => exact failsBy_error (hx e rfl)
  | ok a => exact hf a

theorem failsBy_expectSize (hP : ∀ operation m n, P (.dimension operation m n)) (operation : String)
    (m n : Nat) : FailsBy P (expectSize operation m n) := by
  unfold expectSize
  split
  · exact failsBy_ok ()
  · exact failsBy_error (hP _ _ _)

theorem failsBy_requireWithin (hP : ∀ cause, P (.fault cause)) (m n : Nat) :
    FailsBy P (requireWithin m n) := by
  unfold requireWithin
  split
  · exact failsBy_ok ()
  · exact failsBy_error (hP _)

theorem failsBy_requireRoom (hP : ∀ cause, P (.fault cause)) (m n : Nat) :
    FailsBy P (requireRoom m n) := by
  unfold requireRoom
  split
  · exact failsBy_ok ()
  · exact failsBy_error (hP _)

theorem failsBy_tolerate (x : Outcome α) : FailsBy (fun e => ∃ cause, e = .fault cause) x.tolerate := by
  unfold tolerate
  split
  · exact failsBy_ok _
  · exact failsBy_error ⟨_, rfl⟩
  · exact failsBy_ok _

/-! ### Steps with one error -/

/-- It fails with that error, or has a result of that kind. -/
inductive FailsOr (e : Error) (R : α → Prop) : Outcome α → Prop
  | error : FailsOr e R (.error e)
  | ok {a : α} : R a → FailsOr e R (.ok a)

section FailsOr

variable {e : Error} {R : α → Prop} {T : β → Prop} {x : Outcome α} {f : α → Outcome β}

theorem FailsOr.of_ok (h : FailsOr e R x) {a : α} (hx : x = .ok a) : R a := by
  cases h with
  | error => cases hx
  | ok ha =>
    cases hx
    exact ha

theorem FailsOr.bind (h : FailsOr e R x) (hf : ∀ a, R a → FailsOr e T (f a)) : FailsOr e T (x >>= f) := by
  cases h with
  | error => exact .error
  | ok ha => exact hf _ ha

theorem FailsOr.bind_error (h : FailsOr e R x) (hf : ∀ a, R a → f a = .error e) : x >>= f = .error e := by
  cases h with
  | error => rfl
  | ok ha => exact hf _ ha

end FailsOr

/-! ### Two runs side by side -/

/-- Both fail the same way, or both succeed with related results. -/
inductive Agree (Q : α → β → Prop) : Outcome α → Outcome β → Prop
  | error (e : Error) : Agree Q (.error e) (.error e)
  | ok {a : α} {b : β} : Q a b → Agree Q (.ok a) (.ok b)

variable {Q : α → β → Prop} {S : γ → δ → Prop}

theorem Agree.bind {x : Outcome α} {y : Outcome β} {f : α → Outcome γ} {g : β → Outcome δ}
    (h : Agree Q x y) (hf : ∀ a b, x = .ok a → y = .ok b → Q a b → Agree S (f a) (g b)) :
    Agree S (x >>= f) (y >>= g) := by
  cases h with
  | error e => exact .error e
  | ok hq => exact hf _ _ rfl rfl hq

theorem agree_eq (x : Outcome α) : Agree Eq x x := by
  cases x with
  | error e => exact .error e
  | ok a => exact .ok rfl

theorem Agree.mono {Q' : α → β → Prop} {x : Outcome α} {y : Outcome β} (h : Agree Q x y)
    (hq : ∀ a b, Q a b → Q' a b) : Agree Q' x y := by
  cases h with
  | error e => exact .error e
  | ok hab => exact .ok (hq _ _ hab)

end NpcMind.Outcome
