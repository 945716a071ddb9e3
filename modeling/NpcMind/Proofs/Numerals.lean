import NpcMind.Document.Json.Reader

/-!
# Written numbers

A number is read up to the first character that cannot be part of it, so it is read in the same way wherever it
stands. Integers and decimals are written in a form that can be read, and an integer of 64 bits is read as
itself.
-/

namespace NpcMind.Json

theorem guard_of {p : Prop} [Decidable p] (h : p) : (guard p : Option Unit) = some () := if_pos h

/-! ### The parts of a number -/

/-- A text that a number does not go on with. -/
def Ends (rest : List Char) : Prop :=
  ∀ c, rest.head? = some c → c.isDigit = false ∧ c ≠ '.' ∧ c ≠ 'e' ∧ c ≠ 'E'

theorem ends_nil : Ends [] := by
  intro c hc
  simp at hc

theorem ends_cons {c : Char} (hc : c = ',' ∨ c = ']' ∨ c = '\x7d') (rest : List Char) : Ends (c :: rest) := by
  intro d hd
  obtain rfl : c = d := by simpa using hd
  rcases hc with rfl | rfl | rfl <;> decide

/-- The parts that a number is written in. -/
structure Numeral where
  negative : Bool
  whole : List Char
  fraction : Option (List Char) := none
  /-- A sign and digits. -/
  exponent : Option (Bool × List Char) := none

namespace Numeral

variable {n : Numeral} {rest : List Char}

/-- The fraction as it is written. -/
def fractionChars (n : Numeral) : List Char := n.fraction.elim [] ('.' :: ·)

/-- The exponent as it is written. -/
def exponentChars (n : Numeral) : List Char :=
  n.exponent.elim [] fun e => 'e' :: ((if e.1 then ['-'] else []) ++ e.2)

/-- The number as it is written. -/
def chars (n : Numeral) : List Char :=
  (if n.negative then ['-'] else []) ++ (n.whole ++ (n.fractionChars ++ n.exponentChars))

/-- There are digits wherever there have to be some, and no zero in front of them. -/
structure Proper (n : Numeral) : Prop where
  whole : ∀ c ∈ n.whole, c.isDigit = true
  leading : n.whole.length = 1 ∨ n.whole.head?.getD '0' ≠ '0'
  fraction : ∀ digits, n.fraction = some digits → digits ≠ [] ∧ ∀ c ∈ digits, c.isDigit = true
  exponent : ∀ e, n.exponent = some e → e.2 ≠ [] ∧ ∀ c ∈ e.2, c.isDigit = true

/-- The exponent as a number. -/
def exponentValue (n : Numeral) : Option Int :=
  n.exponent.map fun e => if e.1 then -(digitsValue e.2 : Int) else digitsValue e.2

/-- What the number is read as. -/
def value (n : Numeral) : Document := numberOf n.negative n.whole n.fraction n.exponentValue

theorem span_digits {digits rest : List Char} (hd : ∀ c ∈ digits, c.isDigit = true)
    (hr : ∀ c, rest.head? = some c → c.isDigit = false) :
    (digits ++ rest).takeWhile Char.isDigit = digits ∧ (digits ++ rest).dropWhile Char.isDigit = rest := by
  have hstop : rest.takeWhile Char.isDigit = [] ∧ rest.dropWhile Char.isDigit = rest := by
    rcases rest with _ | ⟨c, rest⟩
    · exact ⟨rfl, rfl⟩
    · have hc := hr c rfl
      simp [hc]
  rw [List.takeWhile_append_of_pos hd, List.dropWhile_append_of_pos hd, hstop.1, hstop.2, List.append_nil]
  exact ⟨rfl, rfl⟩

theorem Proper.whole_ne_nil (h : n.Proper) : n.whole ≠ [] := by
  intro hnil
  rcases h.leading with hlen | hhead
  · rw [hnil] at hlen
    cases hlen
  · rw [hnil] at hhead
    exact hhead rfl

/-- A number starts with its sign or with a digit, so with no other character and no blank. -/
theorem Proper.exists_head (h : n.Proper) : ∃ c tail, n.chars = c :: tail ∧ isBlank c = false ∧
    ∀ a : Char, a ≠ '-' → a.isDigit = false → c ≠ a := by
  obtain ⟨c, tail, hchars, hc⟩ : ∃ c tail, n.chars = c :: tail ∧ (c = '-' ∨ c.isDigit = true) := by
    obtain ⟨c, tail, htail⟩ := List.exists_cons_of_ne_nil h.whole_ne_nil
    have hc := h.whole c (by rw [htail]; exact List.mem_cons_self)
    unfold chars
    cases n.negative with
    | true => exact ⟨'-', _, rfl, .inl rfl⟩
    | false => exact ⟨c, tail ++ (n.fractionChars ++ n.exponentChars), by simp [htail], .inr hc⟩
  have hne : ∀ a : Char, a ≠ '-' → a.isDigit = false → c ≠ a := by
    rintro a hsign hdigit rfl
    rcases hc with rfl | hc
    · exact hsign rfl
    · rw [hc] at hdigit
      cases hdigit
  have hblank : isBlank c = false := by
    simp [isBlank, hne ' ' (by decide) (by decide), hne '\n' (by decide) (by decide),
      hne '\t' (by decide) (by decide), hne '\r' (by decide) (by decide)]
  exact ⟨c, tail, hchars, hblank, hne⟩

theorem Proper.readExponent (h : n.Proper) (hr : Ends rest) :
    readExponent (n.exponentChars ++ rest) = some (n.exponentValue, rest) := by
  unfold exponentChars exponentValue Json.readExponent
  cases he : n.exponent with
  | none =>
    rcases rest with _ | ⟨c, rest⟩
    · rfl
    · obtain ⟨-, -, hlower, hupper⟩ := hr c rfl
      simp [hlower, hupper]
  | some e =>
    obtain ⟨negative, digits⟩ := e
    obtain ⟨hne, hdigits⟩ := h.exponent _ he
    obtain ⟨htake, hdrop⟩ := span_digits hdigits fun c hc => (hr c hc).1
    have hempty : digits.isEmpty = false := by simpa using hne
    cases negative with
    | true => simp [htake, hdrop, hempty]
    | false =>
      -- The first digit is not a sign.
      obtain ⟨c, tail, rfl⟩ := List.exists_cons_of_ne_nil hne
      have hc := hdigits c List.mem_cons_self
      have hminus : c ≠ '-' := by rintro rfl; cases hc
      have hplus : c ≠ '+' := by rintro rfl; cases hc
      simp only [List.cons_append] at htake hdrop
      simp [hminus, hplus, htake, hdrop]

theorem Proper.readFraction (h : n.Proper) (hr : Ends rest) :
    readFraction (n.fractionChars ++ (n.exponentChars ++ rest)) = some (n.fraction, n.exponentChars ++ rest) := by
  have hexponent : ∀ c, (n.exponentChars ++ rest).head? = some c → c.isDigit = false ∧ c ≠ '.' := by
    intro c hc
    unfold exponentChars at hc
    cases he : n.exponent with
    | none =>
      rw [he] at hc
      exact ⟨(hr c hc).1, (hr c hc).2.1⟩
    | some e =>
      rw [he] at hc
      obtain rfl : 'e' = c := by simpa using hc
      decide
  unfold fractionChars Json.readFraction
  cases hf : n.fraction with
  | none =>
    generalize n.exponentChars ++ rest = tail at hexponent ⊢
    rcases tail with _ | ⟨c, tail⟩
    · rfl
    · have hc := (hexponent c rfl).2
      simp [hc]
  | some digits =>
    obtain ⟨hne, hdigits⟩ := h.fraction _ hf
    obtain ⟨htake, hdrop⟩ := span_digits hdigits fun c hc => (hexponent c hc).1
    have hempty : digits.isEmpty = false := by simpa using hne
    simp [htake, hdrop, hempty]

/-- **A number is read up to where it ends**, whatever follows. -/
theorem Proper.readNumber (h : n.Proper) (hr : Ends rest) :
    readNumber (n.chars ++ rest) = some (n.value, rest) := by
  have hfollow : ∀ c, (n.fractionChars ++ (n.exponentChars ++ rest)).head? = some c → c.isDigit = false := by
    intro c hc
    unfold fractionChars exponentChars at hc
    cases hf : n.fraction with
    | some digits =>
      rw [hf] at hc
      obtain rfl : '.' = c := by simpa using hc
      decide
    | none =>
      rw [hf] at hc
      cases he : n.exponent with
      | none =>
        rw [he] at hc
        exact (hr c hc).1
      | some e =>
        rw [he] at hc
        obtain rfl : 'e' = c := by simpa using hc
        decide
  obtain ⟨htake, hdrop⟩ := span_digits h.whole hfollow
  have hsign : readSign (n.chars ++ rest) =
      (n.negative, n.whole ++ (n.fractionChars ++ (n.exponentChars ++ rest))) := by
    obtain ⟨c, tail, htail⟩ := List.exists_cons_of_ne_nil h.whole_ne_nil
    have hc := h.whole c (by rw [htail]; exact List.mem_cons_self)
    have hminus : c ≠ '-' := by rintro rfl; cases hc
    unfold chars readSign
    cases n.negative <;> simp [htail, hminus]
  unfold Json.readNumber
  rw [hsign]
  dsimp only
  rw [htake, hdrop, guard_of h.leading, h.readFraction hr]
  simp [h.readExponent hr, value]

end Numeral

/-! ### Written numbers -/

theorem isDigit_of_mem_toDigits {n : Nat} {c : Char} (hc : c ∈ Nat.toDigits 10 n) : c.isDigit = true :=
  Nat.isDigit_of_mem_toDigits (by decide) (by decide) hc

theorem digitsValue_toDigits (n : Nat) : digitsValue (Nat.toDigits 10 n) = n := by
  have hvalue := Nat.ofDigitChars_ten_toDigits (n := n)
  rw [Nat.ofDigitChars_eq_foldl] at hvalue
  simpa only [digitsValue, digitValue, Nat.mul_comm] using hvalue

/-- The digits of a number other than zero start with another digit than zero. -/
theorem head?_toDigits {n : Nat} (hn : n ≠ 0) : (Nat.toDigits 10 n).head?.getD '0' ≠ '0' := by
  induction n using Nat.strongRecOn with
  | ind n ih =>
    rw [Nat.toDigits_eq_if (by decide)]
    by_cases hsmall : n < 10
    · have hdigit : ∀ m, m < 10 → m ≠ 0 → m.digitChar ≠ '0' := by decide
      simpa [hsmall] using hdigit n hsmall hn
    · have htail := ih (n / 10) (by omega) (by omega)
      obtain ⟨c, tail, hdigits⟩ := List.exists_cons_of_ne_nil (Nat.toDigits_ne_nil (n := n / 10) (b := 10))
      rw [hdigits] at htail
      simpa [hsmall, hdigits] using htail

/-- The parts of an integer. -/
def Numeral.ofInt (z : Int) : Numeral where
  negative := z < 0
  whole := Nat.toDigits 10 z.natAbs

theorem Numeral.proper_ofInt (z : Int) : (ofInt z).Proper where
  whole _ hc := isDigit_of_mem_toDigits hc
  leading := by
    by_cases hz : z.natAbs = 0
    · simp [ofInt, hz]
    · exact .inr (head?_toDigits hz)
  fraction _ hd := by cases hd
  exponent _ he := by cases he

theorem toList_toString (z : Int) : (toString z).toList = (Numeral.ofInt z).chars := by
  rw [Int.toString_eq_repr, Int.repr_eq_if]
  by_cases hz : 0 ≤ z
  · have habs : z.natAbs = z.toNat := by omega
    simp [hz, Int.not_lt.2 hz, habs, Numeral.ofInt, Numeral.chars, Numeral.fractionChars, Numeral.exponentChars]
  · have habs : z.natAbs = (-z).toNat := by omega
    simp [hz, Int.not_le.1 hz, habs, Numeral.ofInt, Numeral.chars, Numeral.fractionChars, Numeral.exponentChars]

/-- An integer of 64 bits is read as itself. -/
theorem Numeral.value_ofInt {z : Int} (hlow : -(UInt64.size / 2 : Nat) ≤ z) (hhigh : z < UInt64.size) :
    (ofInt z).value = .int z := by
  have hdigits : digitsValue (ofInt z).whole = z.natAbs := digitsValue_toDigits _
  unfold value numberOf
  rw [hdigits]
  by_cases hz : z < 0
  · have habs : -(z.natAbs : Int) = z := by omega
    have hpos : 0 < z.natAbs := by omega
    have hsmall : z.natAbs ≤ UInt64.size / 2 := by omega
    generalize z.natAbs = n at habs hpos hsmall
    simp [ofInt, exponentValue, hz, habs, hpos, hsmall]
  · have habs : (z.natAbs : Int) = z := by omega
    have hsmall : z.natAbs < UInt64.size := by omega
    generalize z.natAbs = n at habs hsmall
    simp [ofInt, exponentValue, hz, habs, hsmall]

/-- The text is a number without a sign. -/
def Unsigned (text : String) : Prop :=
  ∃ n : Numeral, n.Proper ∧ n.negative = false ∧ text.toList = n.chars

theorem Unsigned.signed {text : String} (h : Unsigned text) (negative : Bool) :
    ∃ n : Numeral, n.Proper ∧ (if negative then "-" ++ text else text).toList = n.chars := by
  obtain ⟨n, hn, hplain, htext⟩ := h
  refine ⟨{ n with negative }, ⟨hn.whole, hn.leading, hn.fraction, hn.exponent⟩, ?_⟩
  have hchars : text.toList = n.whole ++ (n.fractionChars ++ n.exponentChars) := by
    simpa [Numeral.chars, hplain] using htext
  cases negative with
  | true => simp only [if_true, String.toList_append, hchars]; rfl
  | false => exact hchars

/-- Digits around a point are a number. -/
theorem unsigned_point (whole fraction : List Char) {text : String}
    (hwhole : ∀ c ∈ whole, c.isDigit = true) (hleading : whole.length = 1 ∨ whole.head?.getD '0' ≠ '0')
    (hfraction : ∀ c ∈ fraction, c.isDigit = true) (hne : fraction ≠ [])
    (htext : text.toList = whole ++ '.' :: fraction) : Unsigned text := by
  refine ⟨⟨false, whole, some fraction, none⟩, ⟨hwhole, hleading, ?_, ?_⟩, rfl, ?_⟩
  · rintro digits ⟨⟩
    exact ⟨hne, hfraction⟩
  · rintro e ⟨⟩
  · simp [htext, Numeral.chars, Numeral.fractionChars, Numeral.exponentChars]

/-- A decimal is written as a proper number. -/
theorem exists_numeral (d : Decimal) : ∃ n : Numeral, n.Proper ∧ d.render.toList = n.chars := by
  have hdigit : ∀ c ∈ Nat.toDigits 10 d.digits, c.isDigit = true := fun c hc => isDigit_of_mem_toDigits hc
  have hzeros : ∀ n, ∀ c ∈ List.replicate n '0', c.isDigit = true := by
    intro n c hc
    rw [List.eq_of_mem_replicate hc]
    decide
  have hsize : (toString d.digits).length = (Nat.toDigits 10 d.digits).length := by
    rw [← String.length_toList]
    simp
  obtain ⟨c, tail, hcons⟩ := List.exists_cons_of_ne_nil (Nat.toDigits_ne_nil (n := d.digits) (b := 10))
  refine Unsigned.signed ?_ d.negative
  by_cases hzero : d.digits = 0
  · rw [if_pos hzero]
    exact unsigned_point ['0'] ['0'] (hzeros 1) (by decide) (hzeros 1) (by decide) rfl
  have hhead : c ≠ '0' := by
    have hhead := head?_toDigits hzero
    rwa [hcons] at hhead
  rw [if_neg hzero, hsize]
  by_cases hplain : 0 < ((Nat.toDigits 10 d.digits).length : Int) + d.exponent ∧
      ((Nat.toDigits 10 d.digits).length : Int) + d.exponent ≤ 16
  · rw [if_pos (by simpa using hplain)]
    by_cases hint : 0 ≤ d.exponent
    · -- The digits, zeros up to the point, and one zero after it.
      rw [if_pos hint]
      refine unsigned_point (Nat.toDigits 10 d.digits ++ List.replicate d.exponent.toNat '0') ['0'] ?_ ?_ (hzeros 1)
        (by decide) (by simp)
      · intro c hc
        exact (List.mem_append.1 hc).elim (hdigit c) (hzeros _ c)
      · right
        simpa [hcons] using hhead
    · -- The point is among the digits.
      rw [if_neg hint]
      obtain ⟨k, hk⟩ : ∃ k : Nat, ((Nat.toDigits 10 d.digits).length : Int) + d.exponent = k + 1 :=
        ⟨(((Nat.toDigits 10 d.digits).length : Int) + d.exponent - 1).toNat, by omega⟩
      have hlt : k + 1 < (Nat.toDigits 10 d.digits).length := by omega
      rw [hk]
      refine unsigned_point ((Nat.toDigits 10 d.digits).take (k + 1)) ((Nat.toDigits 10 d.digits).drop (k + 1)) ?_ ?_
        ?_ ?_ ?_
      · exact fun c hc => hdigit c (List.mem_of_mem_take hc)
      · right
        simpa [hcons] using hhead
      · exact fun c hc => hdigit c (List.mem_of_mem_drop hc)
      · simpa using hlt
      · have hnat : ((k : Int) + 1).toNat = k + 1 := rfl
        rw [hnat]
        simp
  rw [if_neg (by simpa using hplain)]
  by_cases hsmall : -5 < ((Nat.toDigits 10 d.digits).length : Int) + d.exponent ∧
      ((Nat.toDigits 10 d.digits).length : Int) + d.exponent ≤ 0
  · -- A zero, the point, and zeros before the digits.
    rw [if_pos (by simpa using hsmall)]
    refine unsigned_point ['0'] (List.replicate (-(((Nat.toDigits 10 d.digits).length : Int) + d.exponent)).toNat '0' ++
      Nat.toDigits 10 d.digits) (hzeros 1) (by decide) ?_ ?_ ?_
    · intro c hc
      exact (List.mem_append.1 hc).elim (hzeros _ c) (hdigit c)
    · simp [hcons]
    · simp
  · -- One digit before the point, and an exponent.
    rw [if_neg (by simpa using hsmall)]
    generalize ((Nat.toDigits 10 d.digits).length : Int) + d.exponent - 1 = e
    have htail : ((toString d.digits).drop 1).toString.toList = tail := by simp [hcons]
    have hempty : ((toString d.digits).drop 1).toString = "" ↔ tail = [] := by
      rw [← htail, String.toList_eq_nil_iff]
    refine ⟨⟨false, [c], if tail = [] then none else some tail, some (e < 0, Nat.toDigits 10 e.natAbs)⟩,
      ⟨?_, .inl rfl, ?_, ?_⟩, rfl, ?_⟩
    · intro a ha
      obtain rfl : a = c := by simpa using ha
      exact hdigit a (by rw [hcons]; exact List.mem_cons_self)
    · intro digits hdigits
      obtain ⟨hne, rfl⟩ : tail ≠ [] ∧ tail = digits := by simpa using hdigits
      exact ⟨hne, fun a ha => hdigit a (by rw [hcons]; exact List.mem_cons_of_mem _ ha)⟩
    · rintro _ ⟨⟩
      exact ⟨Nat.toDigits_ne_nil, fun a ha => isDigit_of_mem_toDigits ha⟩
    · have hexponent : (toString e).toList = (if e < 0 then ['-'] else []) ++ Nat.toDigits 10 e.natAbs := by
        rw [toList_toString]
        simp [Numeral.ofInt, Numeral.chars, Numeral.fractionChars, Numeral.exponentChars]
      simp only [hempty, String.toList_append, hexponent]
      by_cases hnone : tail = [] <;>
        simp [Numeral.chars, Numeral.fractionChars, Numeral.exponentChars, hnone, hcons]

end NpcMind.Json
