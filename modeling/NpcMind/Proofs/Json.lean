import NpcMind.Document.Json.Printer
import NpcMind.Proofs.Numerals

/-!
# Reading what was written

Whatever document is written, its text can be read, and `Document.reread` says what is read: the document
itself, except that its numbers are read from their digits and that what has no digits is `null`.
-/

namespace NpcMind.Json

/-! ### Quoted texts -/

/-- The characters that are not written as they are. -/
def isEscaped (c : Char) : Bool := c = '"' || c = '\\' || c.toNat < 0x20

/-- A text inside its quotes. -/
def inside (s : List Char) : List Char := s.flatMap fun c => (escape c).toList

theorem toList_quote (s : String) : (quote s).toList = '"' :: (inside s.toList ++ ['"']) := by
  have hfold : ∀ (cs : List Char) (acc : String),
      (cs.foldl (fun acc c => acc ++ escape c) acc).toList = acc.toList ++ inside cs := by
    intro cs
    induction cs with
    | nil => simp [inside]
    | cons c cs ih =>
      intro acc
      rw [List.foldl_cons, ih, String.toList_append]
      simp [inside]
  rw [quote, String.toList_append, String.foldl_eq_foldl_toList, hfold]
  simp

theorem hexValue?_pair {n : Nat} (hn : n < 32) :
    hexValue? ['0', '0', Nat.digitChar (n / 16), Nat.digitChar (n % 16)] = some n := by
  have hall : ∀ n, n < 32 → hexValue? ['0', '0', Nat.digitChar (n / 16), Nat.digitChar (n % 16)] = some n := by
    decide
  exact hall n hn

/-- One character is read back, whichever way it was written. -/
theorem readQuoted_escape (c : Char) (cs : List Char) (plain : Bool) (rest : List Char) :
    readQuoted ⟨some cs, none, plain⟩ ((escape c).toList ++ rest) =
      readQuoted ⟨some (c :: cs), none, plain && !isEscaped c⟩ rest := by
  unfold escape isEscaped
  by_cases hquote : c = '"'
  · subst hquote
    simp [readQuoted, escaped?, Draft.push, Draft.settled]
  by_cases hback : c = '\\'
  · subst hback
    simp [readQuoted, escaped?, Draft.push, Draft.settled]
  by_cases hcontrol : c.toNat < 0x20
  · -- The code fits two hexadecimal digits and is no half of a pair.
    have hunit : c.toNat < 0xD800 := by omega
    simp [hquote, hback, hcontrol, hexPair, readQuoted, hexValue?_pair hcontrol, Draft.pushUnit, Draft.pushFresh,
      hunit, Draft.push, Draft.settled]
  · rw [if_neg hquote, if_neg hback, if_neg hcontrol]
    simp only [Char.toString, String.toList_singleton, List.cons_append, List.nil_append]
    rw [readQuoted.eq_5 _ _ _ hquote (fun _ _ _ _ _ h => absurd h hback) (fun _ _ h => absurd h hback), if_neg hcontrol]
    simp [Draft.push, Draft.settled, hquote, hback, hcontrol]

/-- **A quoted text is read back** up to its closing quote. -/
theorem readQuoted_inside (s cs : List Char) (plain : Bool) (rest : List Char) :
    readQuoted ⟨some cs, none, plain⟩ (inside s ++ '"' :: rest) =
      some (⟨some (String.ofList (cs.reverse ++ s)), plain && s.all (!isEscaped ·)⟩, rest) := by
  induction s generalizing cs plain with
  | nil => simp [inside, readQuoted, Draft.toQuoted, Draft.settled]
  | cons c s ih =>
    have hcons : inside (c :: s) = (escape c).toList ++ inside s := rfl
    rw [hcons, List.append_assoc, readQuoted_escape, ih]
    simp [Bool.and_assoc]

theorem not_isEscaped {c : Char} (hc : c.isDigit = true) : isEscaped c = false := by
  have hcode : 48 ≤ c.toNat := by
    simp only [Char.isDigit, Bool.and_eq_true, decide_eq_true_eq] at hc
    exact hc.1
  have hquote : c ≠ '"' := by rintro rfl; cases hc
  have hback : c ≠ '\\' := by rintro rfl; cases hc
  simp only [isEscaped, hquote, hback, decide_false, Bool.false_or, decide_eq_false_iff_not]
  omega

/-- A name of digits only is written without escapes, so it is not taken for anything else. -/
theorem name?_eq (name : String) : Quoted.name? ⟨some name, name.toList.all (!isEscaped ·)⟩ false = some name := by
  rw [Quoted.name?, Option.map_some]
  by_cases hdigits : name.all Char.isDigit = true
  · have hplain : name.toList.all (!isEscaped ·) = true := by
      simp only [String.all_bool_eq, List.all_eq_true] at hdigits
      simpa using fun c hc => not_isEscaped (hdigits c hc)
    simp [hplain]
  · simp only [hdigits, Bool.not_false, Bool.or_true, if_true]

/-- A name is read back up to its colon. -/
theorem readName_quote (name : String) (rest : List Char) :
    readName false ((quote name).toList ++ ':' :: rest) = some (some name, rest) := by
  have hread := readQuoted_inside name.toList [] true (':' :: rest)
  simp only [List.reverse_nil, List.nil_append, String.ofList_toList, Bool.true_and] at hread
  have hquote : skipBlanks ('"' :: (inside name.toList ++ '"' :: ':' :: rest)) =
      '"' :: (inside name.toList ++ '"' :: ':' :: rest) := rfl
  have hcolon : skipBlanks (':' :: rest) = ':' :: rest := rfl
  rw [toList_quote, readName]
  simp [hquote, hread, hcolon, name?_eq]

/-! ### Values -/

theorem accepts_false (d : Document) : accepts false d = true := by
  cases d <;> rfl

section Written

variable (form : Float → String)

mutual

/-- A document is written behind what was written before. -/
theorem write_eq (acc : String) : (d : Document) → write form acc d = acc ++ write form "" d
  | .null | .unreadable | .bool _ | .int _ | .real _ | .text _ => by simp [write]
  | .list items => by
    rw [write, write, writeItems_eq (acc ++ "[") items, writeItems_eq ("" ++ "[") items]
    simp [String.append_assoc]
  | .record fields => by
    rw [write, write, writeFields_eq (acc ++ "\x7b") fields, writeFields_eq ("" ++ "\x7b") fields]
    simp [String.append_assoc]

theorem writeItems_eq (acc : String) : (items : List Document) → (first : Bool) →
    writeItems form acc items first = acc ++ writeItems form "" items first
  | [], _ => by simp [writeItems]
  | d :: rest, first => by
    have htail : ∀ text, writeItems form (write form text d) rest false =
        text ++ (write form "" d ++ writeItems form "" rest false) := by
      intro text
      rw [writeItems_eq _ rest, write_eq text d, String.append_assoc]
    rw [writeItems, writeItems, htail, htail]
    cases first <;> simp [String.append_assoc]

theorem writeFields_eq (acc : String) : (fields : List (String × Document)) → (first : Bool) →
    writeFields form acc fields first = acc ++ writeFields form "" fields first
  | [], _ => by simp [writeFields]
  | (name, d) :: rest, first => by
    have htail : ∀ text, writeFields form (write form text d) rest false =
        text ++ (write form "" d ++ writeFields form "" rest false) := by
      intro text
      rw [writeFields_eq _ rest, write_eq text d, String.append_assoc]
    rw [writeFields, writeFields, htail, htail]
    cases first <;> simp [String.append_assoc]

end

end Written

end NpcMind.Json

namespace NpcMind.Document

open Json

theorem sizeOf_lt_of_mem_fields {f : String × Document} {fields : List (String × Document)} (hf : f ∈ fields) :
    sizeOf f.2 < sizeOf (record fields) := by
  have hmem := List.sizeOf_lt_of_mem hf
  have hpair : sizeOf f = 1 + sizeOf f.1 + sizeOf f.2 := rfl
  simp only [record.sizeOf_spec]
  omega

/-- The document that its text is read as. -/
def reread : Document → Document
  | .null => .null
  | .unreadable => .null
  | .bool b => .bool b
  | .int z => (Numeral.ofInt z).value
  | .real x => (readNumber (number x).toList).elim .null Prod.fst
  | .text s => .text s
  | .list items => .list (items.map reread)
  | .record fields => .record (fields.map fun f => (f.1, reread f.2))
termination_by d => d
decreasing_by
  · simp only [list.sizeOf_spec]
    have hmem := List.sizeOf_lt_of_mem ‹_ ∈ items›
    omega
  · exact sizeOf_lt_of_mem_fields ‹_›

@[simp] theorem reread_null : null.reread = null := by rw [reread]

@[simp] theorem reread_bool (b : Bool) : (bool b).reread = bool b := by rw [reread]

@[simp] theorem reread_text (s : String) : (text s).reread = text s := by rw [reread]

@[simp] theorem reread_list (items : List Document) : (list items).reread = list (items.map reread) := by rw [reread]

@[simp] theorem reread_record (fields : List (String × Document)) :
    (record fields).reread = record (fields.map fun f => (f.1, f.2.reread)) := by rw [reread]

/-- The reader gets over the document wherever it stands, with a step for each character at the most. -/
def ReadsBack (d : Document) : Prop :=
  ∃ steps ≤ d.toJson.toList.length, ∀ fuel frames rest, Ends rest →
    readWithin false (fuel + steps) frames none (d.toJson.toList ++ rest) =
      readWithin false fuel frames (some d.reread) rest

/-- A value that holds no others takes one step. -/
theorem readsBack_scalar {d : Document} {c : Char} {tail : List Char} (hchars : d.toJson.toList = c :: tail)
    (hblank : isBlank c = false) (hlist : c ≠ '[') (hrecord : c ≠ '\x7b')
    (hread : ∀ rest, Ends rest → readScalar (c :: (tail ++ rest)) = some (d.reread, rest)) : d.ReadsBack := by
  refine ⟨1, by rw [hchars]; exact Nat.le_add_left 1 _, ?_⟩
  intro fuel frames rest hrest
  have hskip : skipBlanks (c :: (tail ++ rest)) = c :: (tail ++ rest) := by
    simp [skipBlanks, hblank]
  rw [hchars, List.cons_append, readWithin, hskip]
  simp [hlist, hrecord, hread rest hrest, accepts_false]

theorem readsBack_numeral {d : Document} {n : Numeral} (hn : n.Proper) (hchars : d.toJson.toList = n.chars)
    (hvalue : d.reread = n.value) : d.ReadsBack := by
  obtain ⟨c, tail, hcons, hblank, hne⟩ := hn.exists_head
  refine readsBack_scalar (hchars.trans hcons) hblank (hne _ (by decide) (by decide)) (hne _ (by decide) (by decide)) ?_
  intro rest hrest
  have hscalar : readScalar (c :: (tail ++ rest)) = readNumber (c :: (tail ++ rest)) := by
    have hother : ∀ a l, a ≠ '-' → a.isDigit = false → c :: (tail ++ rest) ≠ a :: l := by
      intro a l hsign hdigit heq
      exact hne a hsign hdigit (List.cons.inj heq).1
    rw [readScalar] <;> intro l hl <;> exact hother _ _ (by decide) (by decide) hl
  rw [hscalar, hvalue, ← List.cons_append, ← hcons, hn.readNumber hrest]

theorem toJson_int (z : Int) : (int z).toJson.toList = (Numeral.ofInt z).chars := by
  rw [toJson, write, String.empty_append, toList_toString]

theorem toJson_text (s : String) : (text s).toJson.toList = '"' :: (inside s.toList ++ ['"']) := by
  rw [toJson, write, String.empty_append, toList_quote]

/-- A double is written as a proper number, or as `null`. -/
theorem real_cases (x : Float) :
    (∃ n : Numeral, n.Proper ∧ (real x).toJson.toList = n.chars ∧ (real x).reread = n.value) ∨
      ((real x).toJson.toList = ['n', 'u', 'l', 'l'] ∧ (real x).reread = null) := by
  have htext : (real x).toJson = number x := by rw [toJson, write, String.empty_append]
  by_cases hx : x.isFinite = true
  · obtain ⟨n, hn, hchars⟩ := exists_numeral (Decimal.ofDouble x)
    have hnumber : (number x).toList = n.chars := by rw [number, if_pos hx, hchars]
    have hread := hn.readNumber ends_nil
    rw [List.append_nil] at hread
    exact .inl ⟨n, hn, htext ▸ hnumber, by rw [reread, hnumber, hread]; rfl⟩
  · have hnumber : number x = "null" := if_neg hx
    exact .inr ⟨htext ▸ hnumber ▸ rfl, by rw [reread, hnumber]; rfl⟩

/-- What is written as `null` is read as `null`. -/
theorem readsBack_null {d : Document} (hchars : d.toJson.toList = ['n', 'u', 'l', 'l']) (hvalue : d.reread = null) :
    d.ReadsBack :=
  readsBack_scalar hchars (by decide) (by decide) (by decide) fun rest _ => by rw [hvalue]; rfl

theorem readsBack_bool (b : Bool) : (bool b).ReadsBack := by
  cases b with
  | true => exact readsBack_scalar rfl (by decide) (by decide) (by decide) fun rest _ => by rw [reread_bool]; rfl
  | false => exact readsBack_scalar rfl (by decide) (by decide) (by decide) fun rest _ => by rw [reread_bool]; rfl

theorem readsBack_real (x : Float) : (real x).ReadsBack := by
  rcases real_cases x with ⟨n, hn, hchars, hvalue⟩ | ⟨hchars, hvalue⟩
  · exact readsBack_numeral hn hchars hvalue
  · exact readsBack_null hchars hvalue

theorem readsBack_text (s : String) : (text s).ReadsBack := by
  refine readsBack_scalar (toJson_text s) (by decide) (by decide) (by decide) ?_
  intro rest _
  have hread := readQuoted_inside s.toList [] true rest
  simp only [List.reverse_nil, List.nil_append, String.ofList_toList, Bool.true_and] at hread
  simp [readScalar, hread]

/-! ### Lists and records -/

theorem toJson_list_nil : (list []).toJson.toList = ['[', ']'] := by
  simp [toJson, write, writeItems]

theorem toJson_record_nil : (record []).toJson.toList = ['\x7b', '\x7d'] := by
  simp [toJson, write, writeFields]

theorem toJson_list_cons (d : Document) (rest : List Document) : (list (d :: rest)).toJson.toList =
    '[' :: (d.toJson.toList ++ ((writeItems number "" rest false).toList ++ [']'])) := by
  rw [toJson, write, writeItems, if_pos rfl, writeItems_eq, write_eq, toJson]
  simp

theorem toJson_record_cons (name : String) (d : Document) (rest : List (String × Document)) :
    (record ((name, d) :: rest)).toJson.toList = '\x7b' :: ((quote name).toList ++
      (':' :: (d.toJson.toList ++ ((writeFields number "" rest false).toList ++ ['\x7d'])))) := by
  rw [toJson, write, writeFields, if_pos rfl, writeFields_eq, write_eq, toJson]
  simp

theorem writeItems_cons (d : Document) (rest : List Document) : (writeItems number "" (d :: rest) false).toList =
    ',' :: (d.toJson.toList ++ (writeItems number "" rest false).toList) := by
  rw [writeItems, if_neg Bool.false_ne_true, writeItems_eq, write_eq, toJson]
  simp

theorem writeFields_cons (name : String) (d : Document) (rest : List (String × Document)) :
    (writeFields number "" ((name, d) :: rest) false).toList = ',' :: ((quote name).toList ++
      (':' :: (d.toJson.toList ++ (writeFields number "" rest false).toList))) := by
  rw [writeFields, if_neg Bool.false_ne_true, writeFields_eq, write_eq, toJson]
  simp

theorem ends_items (rest : List Document) (tail : List Char) :
    Ends ((writeItems number "" rest false).toList ++ ']' :: tail) := by
  cases rest with
  | nil => simpa [writeItems] using ends_cons (.inr (.inl rfl)) tail
  | cons d rest =>
    rw [writeItems_cons, List.cons_append]
    exact ends_cons (.inl rfl) _

theorem ends_fields (rest : List (String × Document)) (tail : List Char) :
    Ends ((writeFields number "" rest false).toList ++ '\x7d' :: tail) := by
  cases rest with
  | nil => simpa [writeFields] using ends_cons (.inr (.inr rfl)) tail
  | cons f rest =>
    rw [writeFields_cons, List.cons_append]
    exact ends_cons (.inl rfl) _

/-- The items that are left in a list, one after the other. -/
theorem readWithin_items {rest : List Document} (h : ∀ d ∈ rest, d.ReadsBack) :
    ∃ steps ≤ (writeItems number "" rest false).toList.length + 1, ∀ fuel before frames value tail,
      readWithin false (fuel + steps) (.items before :: frames) (some value)
          ((writeItems number "" rest false).toList ++ ']' :: tail) =
        readWithin false fuel frames (some (.list (before.reverse ++ value :: rest.map reread))) tail := by
  induction rest with
  | nil =>
    refine ⟨1, Nat.le_add_left 1 _, ?_⟩
    intro fuel before frames value tail
    have hskip : skipBlanks (']' :: tail) = ']' :: tail := rfl
    simp [writeItems, readWithin, hskip]
  | cons d rest ih =>
    obtain ⟨stepsRest, hboundRest, hrest⟩ := ih fun e he => h e (List.mem_cons_of_mem d he)
    obtain ⟨stepsItem, hboundItem, hitem⟩ := h d List.mem_cons_self
    refine ⟨stepsRest + stepsItem + 1, ?_, ?_⟩
    · rw [writeItems_cons]
      simp only [List.length_cons, List.length_append]
      omega
    · intro fuel before frames value tail
      have hskip : ∀ l, skipBlanks (',' :: l) = ',' :: l := fun _ => rfl
      rw [writeItems_cons, ← Nat.add_assoc, ← Nat.add_assoc, List.cons_append, readWithin, hskip]
      simp only [List.append_assoc]
      rw [hitem _ _ _ (ends_items rest tail), hrest]
      simp

theorem recordOf_map (fields : List (String × Document)) :
    recordOf (fields.map fun f => (some f.1, f.2)) = record fields.reverse := by
  have hall : ∀ l : List (String × Document),
      (l.map fun f => (some f.1, f.2)).mapM (fun p : Option String × Document => p.1.map (·, p.2)) = some l := by
    intro l
    induction l with
    | nil => rfl
    | cons f l ih => simp [ih]
  rw [recordOf, ← List.map_reverse, hall]

/-- The fields that are left in a record, one after the other. -/
theorem readWithin_fields {rest : List (String × Document)} (h : ∀ f ∈ rest, f.2.ReadsBack) :
    ∃ steps ≤ (writeFields number "" rest false).toList.length + 1,
      ∀ fuel (before : List (String × Document)) name frames value tail,
        readWithin false (fuel + steps) (.fields (before.map fun f => (some f.1, f.2)) (some name) :: frames)
            (some value) ((writeFields number "" rest false).toList ++ '\x7d' :: tail) =
          readWithin false fuel frames
            (some (.record (before.reverse ++ (name, value) :: rest.map fun f => (f.1, f.2.reread)))) tail := by
  induction rest with
  | nil =>
    refine ⟨1, Nat.le_add_left 1 _, ?_⟩
    intro fuel before name frames value tail
    have hskip : skipBlanks ('\x7d' :: tail) = '\x7d' :: tail := rfl
    have hrecord := recordOf_map ((name, value) :: before)
    rw [List.map_cons] at hrecord
    simp [writeFields, readWithin, hskip, hrecord, accepts_false]
  | cons f rest ih =>
    obtain ⟨stepsRest, hboundRest, hrest⟩ := ih fun e he => h e (List.mem_cons_of_mem f he)
    obtain ⟨next, d⟩ := f
    obtain ⟨stepsField, hboundField, hfield⟩ : d.ReadsBack := h (next, d) List.mem_cons_self
    refine ⟨stepsRest + stepsField + 1, ?_, ?_⟩
    · rw [writeFields_cons]
      simp only [List.length_cons, List.length_append]
      omega
    · intro fuel before name frames value tail
      have hskip : ∀ l, skipBlanks (',' :: l) = ',' :: l := fun _ => rfl
      rw [writeFields_cons, ← Nat.add_assoc, ← Nat.add_assoc, List.cons_append, readWithin, hskip]
      simp only [List.append_assoc, List.cons_append, readName_quote]
      rw [hfield _ _ _ (ends_fields rest tail)]
      have hnext := hrest fuel ((name, value) :: before) next frames d.reread tail
      rw [List.map_cons] at hnext
      rw [hnext]
      simp

/-- A document is written with something in front that neither is a blank nor closes a list. -/
theorem exists_head (d : Document) : ∃ c tail, d.toJson.toList = c :: tail ∧ isBlank c = false ∧ c ≠ ']' := by
  have hnumeral : ∀ n : Numeral, n.Proper → d.toJson.toList = n.chars →
      ∃ c tail, d.toJson.toList = c :: tail ∧ isBlank c = false ∧ c ≠ ']' := by
    intro n hn hchars
    obtain ⟨c, tail, hcons, hblank, hne⟩ := hn.exists_head
    exact ⟨c, tail, hchars.trans hcons, hblank, hne ']' (by decide) (by decide)⟩
  cases d with
  | null => exact ⟨_, _, rfl, by decide, by decide⟩
  | unreadable => exact ⟨_, _, rfl, by decide, by decide⟩
  | bool b => cases b <;> exact ⟨_, _, rfl, by decide, by decide⟩
  | int z => exact hnumeral _ (Numeral.proper_ofInt z) (toJson_int z)
  | real x =>
    rcases real_cases x with ⟨n, hn, hchars, -⟩ | ⟨hchars, -⟩
    · exact hnumeral n hn hchars
    · exact ⟨_, _, hchars, by decide, by decide⟩
  | text s => exact ⟨_, _, toJson_text s, by decide, by decide⟩
  | list items =>
    cases items with
    | nil => exact ⟨_, _, toJson_list_nil, by decide, by decide⟩
    | cons d rest => exact ⟨_, _, toJson_list_cons d rest, by decide, by decide⟩
  | record fields =>
    cases fields with
    | nil => exact ⟨_, _, toJson_record_nil, by decide, by decide⟩
    | cons f rest => exact ⟨_, _, toJson_record_cons f.1 f.2 rest, by decide, by decide⟩

/-- The first item of a list is read inside of it. -/
theorem readWithin_open (d : Document) (fuel : Nat) (frames : List Frame) (rest : List Char) :
    readWithin false (fuel + 1) frames none ('[' :: (d.toJson.toList ++ rest)) =
      readWithin false fuel (.items [] :: frames) none (d.toJson.toList ++ rest) := by
  obtain ⟨c, tail, hchars, hblank, hclose⟩ := d.exists_head
  have hopen : skipBlanks ('[' :: (c :: tail ++ rest)) = '[' :: (c :: tail ++ rest) := rfl
  have hskip : skipBlanks (c :: (tail ++ rest)) = c :: (tail ++ rest) := by simp [skipBlanks, hblank]
  rw [hchars, readWithin, hopen]
  simp [admits, hclose, hskip]

/-- The name of the first field of a record is read with its opening. -/
theorem readWithin_openRecord (name : String) (fuel : Nat) (frames : List Frame) (rest : List Char) :
    readWithin false (fuel + 1) frames none ('\x7b' :: ((quote name).toList ++ ':' :: rest)) =
      readWithin false fuel (.fields [] (some name) :: frames) none rest := by
  have hname := readName_quote name rest
  rw [toList_quote] at hname ⊢
  have hopen : ∀ l, skipBlanks ('\x7b' :: l) = '\x7b' :: l := fun _ => rfl
  have hquote : ∀ l, skipBlanks ('"' :: l) = '"' :: l := fun _ => rfl
  simp only [List.cons_append] at hname ⊢
  generalize inside name.toList ++ ['"'] ++ ':' :: rest = l at hname ⊢
  rw [readWithin, hopen]
  simp [admits, hquote, hname]

theorem readsBack_list {items : List Document} (h : ∀ d ∈ items, d.ReadsBack) : (list items).ReadsBack := by
  cases items with
  | nil =>
    refine ⟨1, by decide, ?_⟩
    intro fuel frames rest _
    have hopen : skipBlanks ('[' :: ']' :: rest) = '[' :: ']' :: rest := rfl
    have hclose : skipBlanks (']' :: rest) = ']' :: rest := rfl
    rw [toJson_list_nil, List.cons_append, List.cons_append, List.nil_append, readWithin, hopen]
    simp [admits, hclose]
  | cons d items =>
    obtain ⟨stepsRest, hboundRest, hrest⟩ := readWithin_items fun e he => h e (List.mem_cons_of_mem d he)
    obtain ⟨stepsItem, hboundItem, hitem⟩ := h d List.mem_cons_self
    refine ⟨stepsRest + stepsItem + 1, ?_, ?_⟩
    · rw [toJson_list_cons]
      simp only [List.length_cons, List.length_append, List.length_nil]
      omega
    · intro fuel frames rest _
      rw [toJson_list_cons, ← Nat.add_assoc, ← Nat.add_assoc, List.cons_append, List.append_assoc, List.append_assoc,
        readWithin_open]
      simp only [List.cons_append, List.nil_append]
      rw [hitem _ _ _ (ends_items items rest), hrest]
      simp

theorem readsBack_record {fields : List (String × Document)} (h : ∀ f ∈ fields, f.2.ReadsBack) :
    (record fields).ReadsBack := by
  cases fields with
  | nil =>
    refine ⟨1, by decide, ?_⟩
    intro fuel frames rest _
    have hopen : skipBlanks ('\x7b' :: '\x7d' :: rest) = '\x7b' :: '\x7d' :: rest := rfl
    have hclose : skipBlanks ('\x7d' :: rest) = '\x7d' :: rest := rfl
    rw [toJson_record_nil, List.cons_append, List.cons_append, List.nil_append, readWithin, hopen]
    simp [admits, hclose]
  | cons f fields =>
    obtain ⟨stepsRest, hboundRest, hrest⟩ := readWithin_fields fun e he => h e (List.mem_cons_of_mem f he)
    obtain ⟨name, d⟩ := f
    obtain ⟨stepsField, hboundField, hfield⟩ : d.ReadsBack := h (name, d) List.mem_cons_self
    refine ⟨stepsRest + stepsField + 1, ?_, ?_⟩
    · rw [toJson_record_cons]
      simp only [List.length_cons, List.length_append, List.length_nil]
      omega
    · intro fuel frames rest _
      rw [toJson_record_cons, ← Nat.add_assoc, ← Nat.add_assoc, List.cons_append, List.append_assoc, List.cons_append,
        readWithin_openRecord]
      simp only [List.append_assoc, List.cons_append, List.nil_append]
      rw [hfield _ _ _ (ends_fields fields rest)]
      simpa using hrest fuel [] name frames d.reread rest

/-- **Every document can be read back** from its text. -/
theorem readsBack : (d : Document) → d.ReadsBack
  | .null => readsBack_null rfl reread_null
  | .unreadable => readsBack_null rfl (by rw [reread])
  | .bool b => readsBack_bool b
  | .int z => readsBack_numeral (Numeral.proper_ofInt z) (toJson_int z) (by rw [reread])
  | .real x => readsBack_real x
  | .text s => readsBack_text s
  | .list items => readsBack_list fun d hd => readsBack d
  | .record fields => readsBack_record fun f hf => readsBack f.2
termination_by d => d
decreasing_by
  · simp only [list.sizeOf_spec]
    have hmem := List.sizeOf_lt_of_mem hd
    omega
  · exact sizeOf_lt_of_mem_fields hf

/-- **A written document is read as the document that its numbers give.** -/
theorem ofLenientJson?_toJson (d : Document) : ofLenientJson? d.toJson = some d.reread := by
  obtain ⟨steps, hsteps, hread⟩ := d.readsBack
  obtain ⟨fuel, hfuel⟩ : ∃ fuel, d.toJson.toList.length + 1 = fuel + 1 + steps :=
    ⟨d.toJson.toList.length - steps, by omega⟩
  have hall := hread (fuel + 1) [] [] ends_nil
  rw [List.append_nil] at hall
  rw [ofLenientJson?, Json.read, hfuel, hall]
  simp [readWithin, skipBlanks]

end NpcMind.Document
