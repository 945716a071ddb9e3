import NpcMind.Proofs.Order
import NpcMind.Proofs.Products
import NpcMind.Proofs.Signs
import NpcMind.Proofs.SlotErrors
import NpcMind.Proofs.Upkeep

/-!
# The range of lambda

Lambda is moved into its range wherever it is set, and a range is looked at before it is taken over. Both are done by
comparing, and a NaN is neither above nor below anything. So a range with a NaN for a bound passes for one in order,
although nothing can be moved into it, and a lambda that is a NaN stays where it is. This is all that can go wrong:
no other range is taken over that is empty or goes below zero, whatever else is asked, and as long as no call brings
a NaN, lambda lies in its range.
-/

namespace NpcMind

open Outcome

namespace Single

open Float.Model Float.Model.UnpackedFloat

variable {x y lo hi : Float32}

/-- Where a number is moved into an interval, it gets there unless it is a NaN. -/
theorem clamp_mem_iff (h : lo ≤ hi) : (lo ≤ clamp lo hi x ∧ clamp lo hi x ≤ hi) ↔ x.isNaN = false := by
  refine ⟨fun hmem => ?_, clamp_mem h⟩
  unfold clamp at hmem
  split at hmem
  · next hlow => exact (ne_nan_of_lt hlow).1
  · split at hmem
    · next hhigh => exact (ne_nan_of_lt hhigh).2
    · exact (ne_nan_of_le hmem.1).2

theorem clamp_nan (lo hi : Float32) (hx : x.isNaN = true) : clamp lo hi x = x := by
  have hlow : ¬ x < lo := fun h => by
    rw [(ne_nan_of_lt h).1] at hx
    cases hx
  have hhigh : ¬ hi < x := fun h => by
    rw [(ne_nan_of_lt h).2] at hx
    cases hx
  rw [clamp, if_neg hlow, if_neg hhigh]

theorem neither_nan (hx : x.isNaN = false) (hy : y.isNaN = false) : ¬ (x.isNaN = true ∨ y.isNaN = true) := by
  rw [hx, hy]
  rintro (h | h) <;> cases h

theorem isNaN_smaller (x : Float32) (hy : y.isNaN = false) : (smaller x y).isNaN = false := by
  unfold smaller
  split
  · exact hy
  · next hx =>
    split
    · exact Bool.not_eq_true _ ▸ hx
    · split
      · exact Bool.not_eq_true _ ▸ hx
      · exact hy

theorem isNaN_larger (x : Float32) (hy : y.isNaN = false) : (larger x y).isNaN = false :=
  (ne_nan_of_le (le_larger x hy)).2

/-- What is finite and not zero may be multiplied by anything but a NaN. -/
theorem isNaN_mul_finite (hx : x.isNaN = false) (hy : y.isFinite = true) (hne : (y == 0) = false) :
    (x * y).isNaN = false := by
  obtain ⟨s, hzero⟩ | ⟨t, n, f, hn, hfinite⟩ := isFinite_iff.mp hy
  · rw [beq_zero_iff.mpr ⟨s, hzero⟩] at hne
    cases hne
  · exact isNaN_mul_of_finite hx hfinite

end Single

namespace Consolidator

variable {count : Nat} {c : Config.Consolidation} {k k' : Consolidator}

/-! ### Calls -/

/-- What can be asked of a consolidator about lambda. -/
inductive Setting where
  | lambda (x : Float32)
  | range (lo hi : Float32)
  | losses (current validation : Float32)
  | restore (r : ConsolidatorRecord)

/-- The consolidator with a setting made. -/
def adjust (k : Consolidator) : Setting → Outcome Consolidator
  | .lambda x => k.setLambda x
  | .range lo hi => k.setRange lo hi
  | .losses current validation => k.updateLambda current validation
  | .restore r => k.restore r

/-- How a call ends, and the consolidator after it. -/
def settle (k : Consolidator) (s : Setting) : Outcome Unit × Consolidator :=
  match k.adjust s with
  | .ok k => (.ok (), k)
  | .error e => (.error e, k)

/-- The consolidator after calls in turn, those that were refused included. A fault is the end of it. -/
def settleAll (k : Consolidator) : List Setting → Outcome Consolidator
  | [] => .ok k
  | s :: rest =>
    match k.settle s with
    | (.error (.fault cause), _) => .error (.fault cause)
    | (_, k) => k.settleAll rest

/-- The number that a call moves into the range to become lambda. -/
def given (k : Consolidator) : Setting → Float32
  | .lambda x => x
  | .range _ _ => k.lambda
  | .losses current validation => k.adapted current validation * k.lambdaDecay
  | .restore r => r.lambda

/-- The call brings a range that is not below zero but has a NaN for a bound. -/
def Setting.Breaks : Setting → Prop
  | .range lo hi => ¬ lo < 0 ∧ (lo.isNaN = true ∨ hi.isNaN = true)
  | _ => False

/-- What is recorded is about the consolidator's parameters, and there is room for it. -/
structure Takes (k : Consolidator) (r : ConsolidatorRecord) : Prop where
  parameterCount : r.parameterCount = k.parameterCount
  room : r.tasks.length ≤ k.maxTasks
  tasks : ∀ t ∈ r.tasks, k.checkTask t = .ok ()

/-- The call brings a range that is inverted or goes below zero, or a record that does not fit. -/
def Refuses (k : Consolidator) : Setting → Prop
  | .range lo hi => lo < 0 ∨ hi < lo
  | .restore r => ¬ k.Takes r
  | _ => False

/-- Neither lambda nor a bound that the call brings is a NaN. Losses may be. -/
def Setting.Numeric : Setting → Prop
  | .lambda x => x.isNaN = false
  | .range lo hi => lo.isNaN = false ∧ hi.isNaN = false
  | .losses _ _ => True
  | .restore r => r.lambda.isNaN = false

/-- There is something between the bounds of lambda, and nothing of it is negative. -/
structure Ranged (k : Consolidator) : Prop where
  nonneg : 0 ≤ k.minLambda
  ordered : k.minLambda ≤ k.maxLambda

/-- Lambda lies in its range. -/
def InRange (k : Consolidator) : Prop := k.minLambda ≤ k.lambda ∧ k.lambda ≤ k.maxLambda

/-! ### One call -/

theorem between_ok {lo hi : Float32} (h : lo ≤ hi) (x : Float32) : between lo hi x = .ok (Single.clamp lo hi x) :=
  if_pos h

theorem between_nan {lo hi : Float32} (h : lo.isNaN = true ∨ hi.isNaN = true) (x : Float32) :
    between lo hi x = .error (.fault .emptyInterval) := by
  refine if_neg fun hle => ?_
  obtain ⟨hlo, hhi⟩ := Single.ne_nan_of_le hle
  exact Single.neither_nan hlo hhi h

/-- Bounds that compare well and are not NaNs are in order. -/
theorem ordered_of_not_lt {lo hi : Float32} (hlo : lo.isNaN = false) (hhi : hi.isNaN = false) (hneg : ¬ lo < 0)
    (hlt : ¬ hi < lo) : 0 ≤ lo ∧ lo ≤ hi :=
  ⟨Single.le_of_not_lt rfl hlo hneg, Single.le_of_not_lt hlo hhi hlt⟩

/-- What a call does that is neither refused nor a fault: it takes over a range that is one, and moves a number into
it. -/
structure Adjusts (k : Consolidator) (s : Setting) (k' : Consolidator) : Prop where
  ranged : k'.Ranged
  lambda : k'.lambda = Single.clamp k'.minLambda k'.maxLambda (k.given s)
  lambdaDecay : k'.lambdaDecay = k.lambdaDecay

theorem setLambda_ok (h : k.minLambda ≤ k.maxLambda) (x : Float32) :
    k.setLambda x = .ok { k with lambda := Single.clamp k.minLambda k.maxLambda x } := by
  rw [setLambda, between_ok h]
  rfl

theorem setRange_eq {lo hi : Float32} (hneg : ¬ lo < 0) (hlt : ¬ hi < lo) :
    k.setRange lo hi = { k with minLambda := lo, maxLambda := hi }.setLambda k.lambda := by
  unfold setRange
  rw [decide_eq_false hneg, decide_eq_false hlt]
  rfl

theorem Takes.restore_eq {r : ConsolidatorRecord} (h : k.Takes r) :
    k.restore r = { k with
      tasks := r.tasks
      previousValidation := r.previousValidation
      consolidations := r.consolidations }.setLambda r.lambda := by
  unfold Consolidator.restore
  dsimp only
  rw [if_neg fun hne => hne h.parameterCount, if_neg (Nat.not_lt.mpr h.room), forM_ok.mpr h.tasks]
  rfl

theorem takes_of_restore {r : ConsolidatorRecord} (h : k.restore r = .ok k') : k.Takes r := by
  unfold Consolidator.restore at h
  dsimp only at h
  split at h
  · cases h
  · next hcount =>
    split at h
    · cases h
    · next hroom =>
      obtain ⟨_, htasks, -⟩ := ok_of_bind h
      exact ⟨Decidable.not_not.mp hcount, Nat.not_lt.mp hroom, forM_ok.mp htasks⟩

theorem Ranged.adjust (h : k.Ranged) {s : Setting} (hbreaks : ¬ s.Breaks) (hrefuses : ¬ k.Refuses s) :
    ∃ k', k.adjust s = .ok k' ∧ Adjusts k s k' := by
  cases s with
  | lambda x => exact ⟨_, setLambda_ok h.ordered x, ⟨h.nonneg, h.ordered⟩, rfl, rfl⟩
  | range lo hi =>
    obtain ⟨hneg, hlt⟩ := not_or.mp hrefuses
    obtain ⟨hlo, hhi⟩ := not_or.mp fun hnan => hbreaks ⟨hneg, hnan⟩
    rw [Bool.not_eq_true] at hlo hhi
    obtain ⟨hnonneg, hordered⟩ := ordered_of_not_lt hlo hhi hneg hlt
    have hset := setLambda_ok (k := { k with minLambda := lo, maxLambda := hi }) hordered k.lambda
    exact ⟨_, (setRange_eq hneg hlt).trans hset, ⟨hnonneg, hordered⟩, rfl, rfl⟩
  | losses current validation =>
    have hupdate : k.updateLambda current validation = .ok { k with
        lambda := Single.clamp k.minLambda k.maxLambda (k.adapted current validation * k.lambdaDecay)
        previousValidation := some validation } := by
      rw [updateLambda, between_ok h.ordered]
      rfl
    exact ⟨_, hupdate, ⟨h.nonneg, h.ordered⟩, rfl, rfl⟩
  | restore r =>
    have hset := setLambda_ok (k := { k with
      tasks := r.tasks
      previousValidation := r.previousValidation
      consolidations := r.consolidations }) h.ordered r.lambda
    exact ⟨_, (Classical.not_not.mp hrefuses).restore_eq.trans hset, ⟨h.nonneg, h.ordered⟩, rfl, rfl⟩

/-- A call that is refused says so, and is no fault. -/
theorem Ranged.adjust_refused (h : k.Ranged) {s : Setting} (hrefuses : k.Refuses s) :
    ∃ e, k.adjust s = .error e ∧ ∀ cause, e ≠ .fault cause := by
  cases s with
  | lambda | losses => cases hrefuses
  | range lo hi =>
    refine ⟨.config "lambda range is inverted or negative", ?_, fun _ => Error.noConfusion⟩
    have hcheck : (decide (lo < 0) || decide (lo > hi)) = true :=
      (Bool.or_eq_true _ _).mpr (hrefuses.imp decide_eq_true decide_eq_true)
    rw [Consolidator.adjust, setRange, hcheck]
    rfl
  | restore r =>
    have hfails := failsBy_restore (P := fun e => ∀ cause, e ≠ .fault cause) (k := k) (r := r) (by simp) (by simp)
      (by simp) (by simp) (between_ok h.ordered r.lambda ▸ failsBy_ok _)
    cases hk : k.restore r with
    | error e => exact ⟨e, hk, hfails e hk⟩
    | ok k' => exact absurd (takes_of_restore hk) hrefuses

/-- A range with a NaN for a bound passes for one in order. -/
theorem Setting.Breaks.not_refuses {s : Setting} (h : s.Breaks) (k : Consolidator) : ¬ k.Refuses s := by
  cases s with
  | lambda | losses | restore => cases h
  | range lo hi =>
    obtain ⟨hneg, hnan⟩ := h
    rintro (hlt | hlt)
    · exact hneg hlt
    · obtain ⟨hhi, hlo⟩ := Single.ne_nan_of_lt hlt
      exact Single.neither_nan hlo hhi hnan

/-- But lambda cannot be moved into it. -/
theorem adjust_breaks (k : Consolidator) {s : Setting} (h : s.Breaks) :
    k.adjust s = .error (.fault .emptyInterval) := by
  have hpass := h.not_refuses k
  cases s with
  | lambda | losses | restore => cases h
  | range lo hi =>
    obtain ⟨hneg, hlt⟩ := not_or.mp hpass
    rw [Consolidator.adjust, setRange_eq hneg hlt, setLambda, between_nan h.2]
    rfl

theorem Adjusts.inRange_iff {s : Setting} (h : Adjusts k s k') : k'.InRange ↔ (k.given s).isNaN = false := by
  rw [InRange, h.lambda]
  exact Single.clamp_mem_iff h.ranged.ordered

theorem Adjusts.inRange_or_nan {s : Setting} (h : Adjusts k s k') : k'.InRange ∨ k'.lambda.isNaN = true := by
  cases hx : (k.given s).isNaN with
  | false => exact .inl (h.inRange_iff.mpr hx)
  | true =>
    rw [h.lambda, Single.clamp_nan _ _ hx]
    exact .inr hx

/-- **How a call may end**: with a fault, with a refusal that leaves the consolidator as it is, or with lambda moved
into its range. -/
theorem Ranged.settle_cases (h : k.Ranged) (s : Setting) :
    (s.Breaks ∧ k.settle s = (.error (.fault .emptyInterval), k)) ∨
      (k.Refuses s ∧ ∃ e, k.settle s = (.error e, k) ∧ ∀ cause, e ≠ .fault cause) ∨
      ¬ s.Breaks ∧ ¬ k.Refuses s ∧ ∃ k', k.settle s = (.ok (), k') ∧ Adjusts k s k' := by
  by_cases hbreaks : s.Breaks
  · exact .inl ⟨hbreaks, by rw [settle, adjust_breaks k hbreaks]⟩
  · by_cases hrefuses : k.Refuses s
    · obtain ⟨e, he, hfault⟩ := h.adjust_refused hrefuses
      exact .inr (.inl ⟨hrefuses, e, by rw [settle, he], hfault⟩)
    · obtain ⟨k', hk, hadjusts⟩ := h.adjust hbreaks hrefuses
      exact .inr (.inr ⟨hbreaks, hrefuses, k', by rw [settle, hk], hadjusts⟩)

theorem Ranged.settle_fault_iff (h : k.Ranged) (s : Setting) (cause : Fault) :
    (k.settle s).1 = .error (.fault cause) ↔ s.Breaks ∧ cause = .emptyInterval := by
  obtain ⟨hbreaks, hs⟩ | ⟨hrefuses, e, hs, he⟩ | ⟨hbreaks, -, k', hs, -⟩ := h.settle_cases s
  · rw [hs]
    constructor
    · intro heq
      cases heq
      exact ⟨hbreaks, rfl⟩
    · rintro ⟨-, rfl⟩
      rfl
  · rw [hs]
    constructor
    · intro heq
      cases heq
      exact absurd rfl (he cause)
    · exact fun hb => absurd hrefuses (hb.1.not_refuses k)
  · rw [hs]
    constructor
    · intro heq
      cases heq
    · exact fun hb => absurd hb.1 hbreaks

/-! ### Runs -/

theorem settleAll_fault {s : Setting} {cause : Fault} (h : k.settle s = (.error (.fault cause), k'))
    (rest : List Setting) : k.settleAll (s :: rest) = .error (.fault cause) := by
  rw [settleAll, h]

theorem settleAll_ok {s : Setting} (h : k.settle s = (.ok (), k')) (rest : List Setting) :
    k.settleAll (s :: rest) = k'.settleAll rest := by
  rw [settleAll, h]

theorem settleAll_refused {s : Setting} {e : Error} (h : k.settle s = (.error e, k)) (he : ∀ cause, e ≠ .fault cause)
    (rest : List Setting) : k.settleAll (s :: rest) = k.settleAll rest := by
  rw [settleAll, h]
  cases e with
  | fault cause => exact absurd rfl (he cause)
  | _ => rfl

/-- Whatever is asked, the range stays one, and lambda is in it or a NaN. -/
theorem Ranged.settleAll (h : k.Ranged) (hlambda : k.InRange ∨ k.lambda.isNaN = true) {settings : List Setting}
    (hk : k.settleAll settings = .ok k') : k'.Ranged ∧ (k'.InRange ∨ k'.lambda.isNaN = true) := by
  induction settings generalizing k with
  | nil =>
    cases hk
    exact ⟨h, hlambda⟩
  | cons s rest ih =>
    -- After a fault there is nothing to show; a refusal leaves the first consolidator, and else there is a new one.
    obtain ⟨-, hs⟩ | ⟨-, e, hs, he⟩ | ⟨-, -, k₁, hs, hadjusts⟩ := h.settle_cases s
    · rw [settleAll_fault hs] at hk
      cases hk
    · rw [settleAll_refused hs he] at hk
      exact ih h hlambda hk
    · rw [settleAll_ok hs] at hk
      exact ih hadjusts.ranged hadjusts.inRange_or_nan hk

theorem isNaN_adapted (h : k.Ranged) (hlambda : k.InRange) (current validation : Float32) :
    (k.adapted current validation).isNaN = false := by
  have hnan := (Single.ne_nan_of_le hlambda.1).2
  unfold adapted
  split
  · exact hnan
  · dsimp only
    -- Where the losses change lambda, a bound of the range makes up for a product that is a NaN.
    split
    · exact Single.isNaN_smaller _ (Single.ne_nan_of_le h.ordered).2
    · split
      · exact Single.isNaN_larger _ (Single.ne_nan_of_le h.ordered).1
      · exact hnan

/-- A call without a NaN gives lambda a number, if lambda has one and decays to one. -/
theorem isNaN_given (h : k.Ranged) (hlambda : k.InRange) (hdecay : k.lambdaDecay.isFinite = true)
    (hne : (k.lambdaDecay == 0) = false) {s : Setting} (hs : s.Numeric) : (k.given s).isNaN = false := by
  cases s with
  | lambda x => exact hs
  | range lo hi => exact (Single.ne_nan_of_le hlambda.1).2
  | losses current validation => exact Single.isNaN_mul_finite (isNaN_adapted h hlambda _ _) hdecay hne
  | restore r => exact hs

theorem Setting.Numeric.not_breaks {s : Setting} (h : s.Numeric) : ¬ s.Breaks := by
  cases s with
  | lambda | losses | restore => exact id
  | range lo hi => exact fun hbreaks => Single.neither_nan h.1 h.2 hbreaks.2

/-- As long as no NaN comes in, there is no fault, and lambda lies in its range. -/
theorem Ranged.settleAll_numeric (h : k.Ranged) (hlambda : k.InRange) (hdecay : k.lambdaDecay.isFinite = true)
    (hne : (k.lambdaDecay == 0) = false) {settings : List Setting} (hsettings : ∀ s ∈ settings, s.Numeric) :
    ∃ k', k.settleAll settings = .ok k' ∧ k'.InRange := by
  induction settings generalizing k with
  | nil => exact ⟨k, rfl, hlambda⟩
  | cons s rest ih =>
    obtain ⟨hs, hrest⟩ := List.forall_mem_cons.mp hsettings
    obtain ⟨hbreaks, -⟩ | ⟨-, e, hcall, he⟩ | ⟨-, -, k₁, hcall, hadjusts⟩ := h.settle_cases s
    · exact absurd hbreaks hs.not_breaks
    · rw [settleAll_refused hcall he]
      exact ih h hlambda hdecay hne hrest
    · rw [settleAll_ok hcall]
      have hin := hadjusts.inRange_iff.mpr (isNaN_given h hlambda hdecay hne hs)
      rw [← hadjusts.lambdaDecay] at hdecay hne
      exact ih hadjusts.ranged hin hdecay hne hrest

/-! ### The start -/

/-- A consolidator without tasks whose lambda was not yet moved into its range. -/
def unsettled (count : Nat) (c : Config.Consolidation) : Consolidator where
  parameterCount := count
  maxTasks := c.maxTasks
  lambda := c.lambda
  minLambda := c.minLambda
  maxLambda := c.maxLambda
  lambdaDecay := c.lambdaDecay
  prunePolicy := c.prunePolicy

/-- The first lambda is set like any other. -/
theorem ofConfig_eq (count : Nat) (c : Config.Consolidation) : ofConfig count c =
    requireRoom c.maxTasks taskBytes >>= fun _ => (unsettled count c).adjust (.lambda c.lambda) := by
  rfl

theorem ofConfig_nan (hroom : c.maxTasks * taskBytes < UInt64.size / 2)
    (hnan : c.minLambda.isNaN = true ∨ c.maxLambda.isNaN = true) :
    ofConfig count c = .error (.fault .emptyInterval) := by
  rw [ofConfig, requireRoom, if_pos hroom, between_nan hnan]
  rfl

/-- How a consolidator of a valid configuration starts. -/
theorem ofConfig_cases {c : Config} (hc : c.validate = .ok ()) (count : Nat) :
    (¬ c.consolidation.maxTasks * taskBytes < UInt64.size / 2 ∧
      ofConfig count c.consolidation = .error (.fault .tooLarge)) ∨
    (c.consolidation.maxTasks * taskBytes < UInt64.size / 2 ∧
      (c.consolidation.minLambda.isNaN = true ∨ c.consolidation.maxLambda.isNaN = true) ∧
      ofConfig count c.consolidation = .error (.fault .emptyInterval)) ∨
    c.consolidation.maxTasks * taskBytes < UInt64.size / 2 ∧
      (c.consolidation.minLambda.isNaN = false ∧ c.consolidation.maxLambda.isNaN = false) ∧
      ∃ k, ofConfig count c.consolidation = .ok k ∧
        Adjusts (unsettled count c.consolidation) (.lambda c.consolidation.lambda) k := by
  obtain ⟨hneg, hlt⟩ := (Config.accepted_of_validate hc).lambdaRange
  by_cases hroom : c.consolidation.maxTasks * taskBytes < UInt64.size / 2
  · by_cases hnan : c.consolidation.minLambda.isNaN = true ∨ c.consolidation.maxLambda.isNaN = true
    · exact .inr (.inl ⟨hroom, hnan, ofConfig_nan hroom hnan⟩)
    · obtain ⟨hlo, hhi⟩ := not_or.mp hnan
      rw [Bool.not_eq_true] at hlo hhi
      obtain ⟨hnonneg, hordered⟩ := ordered_of_not_lt hlo hhi hneg hlt
      have hranged : (unsettled count c.consolidation).Ranged := ⟨hnonneg, hordered⟩
      obtain ⟨k, hk, hadjusts⟩ := hranged.adjust (s := .lambda c.consolidation.lambda) id id
      refine .inr (.inr ⟨hroom, ⟨hlo, hhi⟩, k, ?_, hadjusts⟩)
      rw [ofConfig_eq, requireRoom, if_pos hroom]
      exact hk
  · refine .inl ⟨hroom, ?_⟩
    rw [ofConfig_eq, requireRoom, if_neg hroom]
    rfl

section

variable {c : Config} (hc : c.validate = .ok ())

include hc

theorem ofConfig_ok_iff (count : Nat) : (∃ k, ofConfig count c.consolidation = .ok k) ↔
    c.consolidation.maxTasks * taskBytes < UInt64.size / 2 ∧
      c.consolidation.minLambda.isNaN = false ∧ c.consolidation.maxLambda.isNaN = false := by
  obtain ⟨hno, hfault⟩ | ⟨-, hnan, hfault⟩ | ⟨hroom, hbounds, k, hk, -⟩ := ofConfig_cases hc count
  · exact iff_of_false (not_ok_of_error hfault) fun h => hno h.1
  · exact iff_of_false (not_ok_of_error hfault) fun h => Single.neither_nan h.2.1 h.2.2 hnan
  · exact iff_of_true ⟨k, hk⟩ ⟨hroom, hbounds⟩

theorem ofConfig_nan_iff (count : Nat) : ofConfig count c.consolidation = .error (.fault .emptyInterval) ↔
    c.consolidation.maxTasks * taskBytes < UInt64.size / 2 ∧
      (c.consolidation.minLambda.isNaN = true ∨ c.consolidation.maxLambda.isNaN = true) := by
  refine ⟨fun hk => ?_, fun h => ofConfig_nan h.1 h.2⟩
  obtain ⟨-, hfault⟩ | ⟨hroom, hnan, -⟩ | ⟨-, -, k, hok, -⟩ := ofConfig_cases hc count
  · rw [hk] at hfault
    cases hfault
  · exact ⟨hroom, hnan⟩
  · rw [hk] at hok
    cases hok

theorem adjusts_of_ofConfig (hk : ofConfig count c.consolidation = .ok k) :
    Adjusts (unsettled count c.consolidation) (.lambda c.consolidation.lambda) k := by
  obtain ⟨-, hfault⟩ | ⟨-, -, hfault⟩ | ⟨-, -, k', hok, hadjusts⟩ := ofConfig_cases hc count
  · rw [hk] at hfault
    cases hfault
  · rw [hk] at hfault
    cases hfault
  · rw [hk] at hok
    cases hok
    exact hadjusts

end

/-- **Lambda stays in its range, but for NaN.** For a valid configuration, `ofConfig` succeeds if and only if there is
room for the tasks and neither bound of lambda is NaN, and faults if there is room and one is. After any `settings`,
the consolidator `k` is `Ranged`, and is `InRange` or has NaN for lambda. A setting `s` faults if and only if
`s.Breaks`, that is, it brings a range with a NaN bound that is not below zero; one that `k.Refuses` changes nothing;
any other clamps `k.given s` into the range. So if no setting brings NaN, and `lambdaDecay` is finite and not zero, no
run faults and `k` is always `InRange`. -/
theorem lambda_stays_in_range {c : Config} (hc : c.validate = .ok ()) (count : Nat) :
    ((∃ k, ofConfig count c.consolidation = .ok k) ↔
      c.consolidation.maxTasks * taskBytes < UInt64.size / 2 ∧
        c.consolidation.minLambda.isNaN = false ∧ c.consolidation.maxLambda.isNaN = false) ∧
    (ofConfig count c.consolidation = .error (.fault .emptyInterval) ↔
      c.consolidation.maxTasks * taskBytes < UInt64.size / 2 ∧
        (c.consolidation.minLambda.isNaN = true ∨ c.consolidation.maxLambda.isNaN = true)) ∧
    ∀ k₀, ofConfig count c.consolidation = .ok k₀ →
      (k₀.InRange ↔ c.consolidation.lambda.isNaN = false) ∧
      (∀ settings k, k₀.settleAll settings = .ok k →
        k.Ranged ∧ (k.InRange ∨ k.lambda.isNaN = true) ∧
        ∀ s : Setting,
          (∀ cause, (k.settle s).1 = .error (.fault cause) ↔ s.Breaks ∧ cause = .emptyInterval) ∧
          (k.Refuses s → (∃ e, (k.settle s).1 = .error e ∧ ∀ cause, e ≠ .fault cause) ∧ (k.settle s).2 = k) ∧
          (¬ s.Breaks → ¬ k.Refuses s → (k.settle s).1 = .ok () ∧
            (k.settle s).2.lambda = Single.clamp (k.settle s).2.minLambda (k.settle s).2.maxLambda (k.given s) ∧
            ((k.settle s).2.InRange ↔ (k.given s).isNaN = false))) ∧
      (c.consolidation.lambda.isNaN = false → c.consolidation.lambdaDecay.isFinite = true →
        (c.consolidation.lambdaDecay == 0) = false → ∀ settings : List Setting, (∀ s ∈ settings, s.Numeric) →
          ∃ k, k₀.settleAll settings = .ok k ∧ k.InRange) := by
  refine ⟨ofConfig_ok_iff hc count, ofConfig_nan_iff hc count, fun k₀ hk₀ => ?_⟩
  have hstart := adjusts_of_ofConfig hc hk₀
  refine ⟨hstart.inRange_iff, fun settings k hk => ?_, fun hlambda hdecay hne settings => ?_⟩
  · obtain ⟨hranged, hin⟩ := hstart.ranged.settleAll hstart.inRange_or_nan hk
    refine ⟨hranged, hin, fun s => ⟨hranged.settle_fault_iff s, fun hrefuses => ?_, fun hbreaks hrefuses => ?_⟩⟩
    · obtain ⟨e, he, hfault⟩ := hranged.adjust_refused hrefuses
      rw [settle, he]
      exact ⟨⟨e, rfl, hfault⟩, rfl⟩
    · obtain ⟨k', hk', hadjusts⟩ := hranged.adjust hbreaks hrefuses
      rw [settle, hk']
      exact ⟨rfl, hadjusts.lambda, hadjusts.inRange_iff⟩
  · refine hstart.ranged.settleAll_numeric (hstart.inRange_iff.mpr hlambda) ?_ ?_
    · exact hstart.lambdaDecay ▸ hdecay
    · exact hstart.lambdaDecay ▸ hne

/-- By default lambda can be built and set, to infinity as well, and losses may be anything; but a range with a NaN for
its lower bound passes the check, and so does a configuration with one. -/
theorem lambda_stays_in_range_by_default :
    (∃ k₀, ofConfig 4 {} = .ok k₀ ∧
      (∃ k, k₀.settleAll [.lambda Single.infinity, .losses 1 (0 / 0), .range 0 5, .losses 1 2] = .ok k ∧ k.InRange) ∧
      (k₀.settle (.range (0 / 0) 5)).1 = .error (.fault .emptyInterval)) ∧
    ({ consolidation := { minLambda := 0 / 0 } } : Config).validate = .ok () ∧
      ofConfig 4 { minLambda := 0 / 0 } = .error (.fault .emptyInterval) := by
  obtain ⟨hbuilt, -, hrun⟩ := lambda_stays_in_range (c := {}) rfl 4
  obtain ⟨k₀, hk₀⟩ := hbuilt.mpr (by decide)
  obtain ⟨-, hany, hnumeric⟩ := hrun k₀ hk₀
  have hvalid : ({ consolidation := { minLambda := 0 / 0 } } : Config).validate = .ok () := rfl
  refine ⟨⟨k₀, hk₀, ?_, ?_⟩, hvalid, (lambda_stays_in_range hvalid 4).2.1.mpr (by decide)⟩
  · refine hnumeric (by decide) (by decide) (by decide) _ ?_
    exact List.forall_mem_cons.mpr ⟨rfl, List.forall_mem_cons.mpr ⟨trivial,
      List.forall_mem_cons.mpr ⟨⟨rfl, rfl⟩, List.forall_mem_singleton.mpr trivial⟩⟩⟩
  · exact (((hany [] k₀ rfl).2.2 _).1 _).mpr ⟨⟨by decide, by decide⟩, rfl⟩

end Consolidator

end NpcMind
