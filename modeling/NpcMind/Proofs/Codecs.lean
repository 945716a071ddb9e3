import NpcMind.Proofs.Acceptance
import NpcMind.Proofs.Json

/-!
# Values that survive being written

A value is written as a text and read back from it. Words, texts, names and identities always survive that, and
so do sizes that fit 64 bits. A number that is not finite is written as `null` and cannot be read at all.
Whatever is put together from values survives if they all do, and cannot be read otherwise.

That a finite number is read back from its own text is a matter of its digits and is assumed where it is needed:
`Codec.Legible`.
-/

namespace NpcMind

open Json

section Yields

variable {α β : Type} {p q : Prop} {x : Option α} {a : α} {f : α → Option β} {b : β}

/-- The value is there under a condition, and nothing is otherwise. -/
structure Yields (p : Prop) (x : Option α) (a : α) : Prop where
  value : p → x = some a
  nothing : ¬p → x = none

theorem yields_of_eq (h : x = some a) : Yields True x a := ⟨fun _ => h, fun hfalse => absurd trivial hfalse⟩

theorem Yields.congr (h : Yields p x a) (hpq : p ↔ q) : Yields q x a :=
  ⟨fun hq => h.value (hpq.2 hq), fun hq => h.nothing fun hp => hq (hpq.1 hp)⟩

/-- One step after the other: both conditions have to hold. -/
theorem Yields.bind (hx : Yields p x a) (hf : Yields q (f a) b) : Yields (p ∧ q) (x.bind f) b := by
  constructor
  · rintro ⟨hp, hq⟩
    rw [hx.value hp, Option.bind_some, hf.value hq]
  · intro hpq
    by_cases hp : p
    · rw [hx.value hp, Option.bind_some, hf.nothing fun hq => hpq ⟨hp, hq⟩]
    · rw [hx.nothing hp, Option.bind_none]

theorem Yields.map (hx : Yields p x a) (g : α → β) : Yields p (x.map g) (g a) :=
  ⟨fun hp => by rw [hx.value hp, Option.map_some], fun hp => by rw [hx.nothing hp, Option.map_none]⟩

/-- A list is read if all of its items are. -/
theorem yields_mapM (condition : β → Prop) {source : β → α} {read : α → Option β} {items : List β}
    (h : ∀ i ∈ items, Yields (condition i) (read (source i)) i) :
    Yields (∀ i ∈ items, condition i) ((items.map source).mapM read) items := by
  induction items with
  | nil => exact (yields_of_eq rfl).congr (by simp)
  | cons i rest ih =>
    have hfirst := h i List.mem_cons_self
    have hrest := ih fun j hj => h j (List.mem_cons_of_mem i hj)
    rw [List.map_cons, List.mapM_cons]
    have hall : condition i ∧ (∀ j ∈ rest, condition j) ∧ True ↔ ∀ j ∈ i :: rest, condition j := by simp
    refine Yields.congr ?_ hall
    exact hfirst.bind (hrest.bind (yields_of_eq rfl))

end Yields

namespace Codec

/-! ### Single values -/

section Parts

variable {α : Type} [Codec α] {p : Prop}

/-- What is read of the written value is the value under a condition, and nothing otherwise. -/
def Survives (p : Prop) (a : α) : Prop := Yields p (decode? (encode a).reread) a

theorem survives_none : Survives True (none : Option α) :=
  yields_of_eq (congrArg decode? Document.reread_null)

/-- A value that is there survives as it does by itself, unless it is written as one that is not. -/
theorem survives_some {a : α} (h : Survives p a) (hnull : (encode a).reread ≠ .null) : Survives p (some a) := by
  have hread : (decode? (encode (some a)).reread : Option (Option α)) = (decode? (encode a).reread).map some := by
    show decode? (encode a).reread = _
    cases hd : (encode a).reread with
    | null => exact absurd hd hnull
    | _ => rfl
  unfold Survives
  rw [hread]
  exact h.map _

/-- A list survives if its items do. -/
theorem survives_list {condition : α → Prop} {as : List α} (h : ∀ a ∈ as, Survives (condition a) a) :
    Survives (∀ a ∈ as, condition a) as := by
  show Yields _ (decode? (Document.list (as.map encode)).reread) as
  rw [Document.reread_list, List.map_map]
  exact yields_mapM condition h

theorem survives_array {condition : α → Prop} {as : Array α} (h : ∀ a ∈ as.toList, Survives (condition a) a) :
    Survives (∀ a ∈ as.toList, condition a) as := by
  show Yields _ (decode? (Document.list (as.toList.map encode)).reread) as
  rw [Document.reread_list, List.map_map]
  exact (yields_mapM condition h).map List.toArray

end Parts

theorem survives_bool (b : Bool) : Survives True b :=
  yields_of_eq (congrArg decode? (Document.reread_bool b))

theorem survives_string (s : String) : Survives True s :=
  yields_of_eq (congrArg decode? (Document.reread_text s))

theorem natBelow?_reread {n bound : Nat} (hn : n < bound) (hbound : bound ≤ UInt64.size) :
    natBelow? bound (Document.int n).reread = some n := by
  rw [Document.reread, Numeral.value_ofInt (by omega) (by omega), natBelow?, if_pos (by omega)]
  rfl

theorem survives_nat {n : Nat} (hn : n < UInt64.size) : Survives True n :=
  yields_of_eq (natBelow?_reread hn (Nat.le_refl _))

theorem survives_uint64 (n : UInt64) : Survives True n := by
  apply yields_of_eq
  show (natBelow? UInt64.size (Document.int n.toNat).reread).map UInt64.ofNat = some n
  rw [natBelow?_reread n.toNat_lt (Nat.le_refl _), Option.map_some, UInt64.ofNat_toNat]

theorem survives_uint32 (n : UInt32) : Survives True n := by
  apply yields_of_eq
  show (natBelow? UInt32.size (Document.int n.toNat).reread).map UInt32.ofNat = some n
  rw [natBelow?_reread n.toNat_lt (by decide), Option.map_some, UInt32.ofNat_toNat]

/-- A number, if it is finite, is what its own text is read as. -/
def Legible (x : Float32) : Prop :=
  x.isFinite = true → (Document.ofLenientJson? (encode x).toJson).bind decode? = some x

instance (x : Float32) : Decidable (Legible x) := inferInstanceAs (Decidable (_ → _))

theorem survives_single {x : Float32} (h : Legible x) : Survives (x.isFinite = true) x := by
  constructor
  · intro hx
    have hread := h hx
    rwa [Document.ofLenientJson?_toJson, Option.bind_some] at hread
  · intro hx
    have hnull : encode x = .null := if_neg hx
    rw [hnull, Document.reread_null]
    rfl

theorem survives_vec {v : Vec} (h : ∀ x ∈ v.toList, Legible x) : Survives (∀ x ∈ v.toList, x.isFinite = true) v :=
  survives_array fun x hx => survives_single (h x hx)

end Codec

/-! ### Identities -/

namespace Uuid

open Codec

theorem length_hexDigits (n value : Nat) : (hexDigits n value).length = n := by
  induction n generalizing value with
  | zero => rfl
  | succ n ih => simp [hexDigits, ih]

/-- Hexadecimal digits are read back behind the digits before them. -/
theorem foldlM_hexDigits (n value before : Nat) :
    (hexDigits n value).foldlM (fun n c => (hexValue? c).map (n * 16 + ·)) before =
      some (before * Nat.pow 16 n + value % Nat.pow 16 n) := by
  have hdigit : ∀ d, d < 16 → hexValue? (Nat.digitChar d) = some d := by decide
  induction n generalizing value before with
  | zero => simp [hexDigits, Nat.mod_one]
  | succ n ih =>
    rw [hexDigits, List.foldlM_append, ih]
    simp only [Option.bind_eq_bind, Option.bind_some, List.foldlM_cons, List.foldlM_nil,
      hdigit (value % 16) (Nat.mod_lt _ (by decide)), Option.map_some, Option.pure_def, Option.some.injEq]
    have hpow : Nat.pow 16 (n + 1) = 16 * Nat.pow 16 n := Nat.mul_comm _ _
    rw [hpow, Nat.mod_mul]
    generalize Nat.pow 16 n = m
    rw [Nat.add_mul, Nat.mul_assoc before m 16, Nat.mul_comm m 16]
    omega

/-- The hyphens are passed over. -/
theorem ofHyphenated?_blocks {a b c d e : List Char} (ha : a.length = 8) (hb : b.length = 4) (hc : c.length = 4)
    (hd : d.length = 4) (he : e.length = 12) :
    ofHyphenated? (a ++ '-' :: (b ++ '-' :: (c ++ '-' :: (d ++ '-' :: e)))) =
      ofDigits? (a ++ (b ++ (c ++ (d ++ e)))) := by
  have hlength : (a ++ '-' :: (b ++ '-' :: (c ++ '-' :: (d ++ '-' :: e)))).length = 36 := by
    simp [ha, hb, hc, hd, he]
  have hhyphens : ([8, 13, 18, 23].all fun i =>
      (a ++ '-' :: (b ++ '-' :: (c ++ '-' :: (d ++ '-' :: e))))[i]? == some '-') = true := by
    simp [ha, hb, hc, hd, List.getElem?_append]
  rw [ofHyphenated?, guard_of hlength, guard_of hhyphens]
  simp [ha, hb, hc, hd, List.drop_append, List.drop_eq_nil_of_le]

theorem ofDigits?_hexDigits (u : Uuid) :
    ofDigits? (hexDigits 16 u.high.toNat ++ hexDigits 16 u.low.toNat) = some u := by
  have hhigh := u.high.toNat_lt
  have hlow := u.low.toNat_lt
  have hpow : Nat.pow 16 16 = UInt64.size := rfl
  have hupper : (u.high.toNat * UInt64.size + u.low.toNat) / UInt64.size = u.high.toNat := by
    rw [Nat.add_comm, Nat.add_mul_div_right _ _ (by decide), Nat.div_eq_of_lt hlow, Nat.zero_add]
  have hlower : UInt64.ofNat (u.high.toNat * UInt64.size + u.low.toNat) = u.low := by
    apply UInt64.toNat_inj.1
    rw [UInt64.toNat_ofNat', Nat.add_comm]
    exact (Nat.add_mul_mod_self_right _ _ _).trans (Nat.mod_eq_of_lt hlow)
  have hvalue : (hexDigits 16 u.high.toNat ++ hexDigits 16 u.low.toNat).foldlM
      (fun n c => (hexValue? c).map (n * 16 + ·)) 0 = some (u.high.toNat * UInt64.size + u.low.toNat) := by
    rw [List.foldlM_append, foldlM_hexDigits, Option.bind_eq_bind, Option.bind_some, foldlM_hexDigits, hpow,
      Nat.mod_eq_of_lt hhigh, Nat.mod_eq_of_lt hlow, Nat.zero_mul, Nat.zero_add]
  have hlength : (hexDigits 16 u.high.toNat ++ hexDigits 16 u.low.toNat).length = 32 := by
    simp [length_hexDigits]
  rw [ofDigits?, guard_of hlength, hvalue]
  simp [hupper, hlower]

theorem ofText?_render (u : Uuid) : ofText? u.render = some u := by
  have hlength := length_hexDigits 16
  have hblocks : u.render.toList =
      (hexDigits 16 u.high.toNat).take 8 ++ '-' :: (((hexDigits 16 u.high.toNat).drop 8).take 4 ++
        '-' :: ((hexDigits 16 u.high.toNat).drop 12 ++ '-' :: ((hexDigits 16 u.low.toNat).take 4 ++
          '-' :: (hexDigits 16 u.low.toNat).drop 4))) := by
    simp [render]
  have hcount : u.render.toList.length = 36 := by
    rw [hblocks]
    simp [hlength]
  have hjoin : (hexDigits 16 u.high.toNat).take 8 ++ (((hexDigits 16 u.high.toNat).drop 8).take 4 ++
      ((hexDigits 16 u.high.toNat).drop 12 ++ ((hexDigits 16 u.low.toNat).take 4 ++
        (hexDigits 16 u.low.toNat).drop 4))) = hexDigits 16 u.high.toNat ++ hexDigits 16 u.low.toNat := by
    have hrest : (hexDigits 16 u.high.toNat).drop 12 = ((hexDigits 16 u.high.toNat).drop 8).drop 4 := by
      rw [List.drop_drop]
    rw [List.take_append_drop, hrest, ← List.append_assoc (List.take 4 _), List.take_append_drop,
      ← List.append_assoc, List.take_append_drop]
  simp only [ofText?, hcount]
  rw [if_neg (by decide), if_pos trivial, hblocks, ofHyphenated?_blocks, hjoin, ofDigits?_hexDigits] <;>
    simp [hlength]

theorem survives (u : Uuid) : Survives True u := by
  apply yields_of_eq
  show decode? (Document.text u.render).reread = some u
  rw [Document.reread_text]
  exact ofText?_render u

end Uuid

/-! ### Tables -/

namespace Sparse

open Codec

variable {entries : List (Nat × Float32)}

theorem place?_toString {k : Nat} (hk : k < UInt32.size) : place? (toString k) = some k := by
  have hdigits : (toString k).toList = Nat.toDigits 10 k := by simp
  have hempty : toString k ≠ "" := by
    intro h
    have hnil := congrArg String.toList h
    rw [hdigits] at hnil
    exact Nat.toDigits_ne_nil hnil
  have hzero : toString k = "0" ∨ (toString k).startsWith "0" = false := by
    by_cases h0 : k = 0
    · exact .inl (by rw [h0]; rfl)
    · right
      rw [← Bool.not_eq_true, String.startsWith_string_iff, hdigits]
      rintro ⟨rest, hrest⟩
      have hhead := head?_toDigits h0
      rw [← hrest] at hhead
      exact hhead rfl
  have hposition : Document.position? (toString k) = some k := by
    rw [Document.position?, if_pos]
    · exact Nat.toNat?_repr k
    · simp only [Bool.and_eq_true, List.all_eq_true, Bool.or_eq_true, decide_eq_true_eq, Bool.not_eq_true', hdigits]
      exact ⟨fun c hc => isDigit_of_mem_toDigits hc, hzero⟩
  rw [place?, hposition]
  exact if_pos ⟨hempty, hk⟩

/-- The places of a table ascend and fit 32 bits. -/
structure InWords (entries : List (Nat × Float32)) : Prop where
  ascending : Ascending entries
  places : ∀ e ∈ entries, e.1 < UInt32.size

/-- A table survives if its values do. As its places ascend, none is moved or left out. -/
theorem InWords.yields (h : InWords entries) (hlegible : ∀ e ∈ entries, Legible e.2) :
    Yields (∀ e ∈ entries, e.2.isFinite = true) (ofDocument? (toDocument entries).reread) entries := by
  have hdocument : (toDocument entries).reread =
      .record (entries.map fun e => (toString e.1, (encode e.2).reread)) := by
    rw [toDocument, Document.reread_record, List.map_map]
    rfl
  rw [hdocument]
  apply Yields.congr
  · refine Yields.bind (yields_mapM (fun e => e.2.isFinite = true) fun e he => ?_)
      (yields_of_eq (congrArg some h.ascending.ofEntries_eq))
    apply Yields.congr
    · exact (yields_of_eq (place?_toString (h.places e he))).bind
        ((survives_single (hlegible e he)).bind (yields_of_eq rfl))
    · simp
  · simp

end Sparse

/-! ### Records -/

/-- The fields that were written are there, and nothing else. -/
theorem Document.entries?_reread {d : Document} {fields : List (String × Document)} (names : List String)
    (hnodup : names.Nodup) (hd : d = .record fields) (hnames : fields.map Prod.fst = names) :
    d.reread.entries? names = some ⟨fields.map fun f => (f.1, f.2.reread)⟩ := by
  subst hd hnames
  have hfst : (fields.map fun f => (f.1, f.2.reread)).map Prod.fst = fields.map Prod.fst := by simp
  have hknown : (fields.map fun f => (f.1, f.2.reread)).filter (fun f => (fields.map Prod.fst).contains f.1) =
      fields.map fun f => (f.1, f.2.reread) := by
    apply List.filter_eq_self.2
    intro f hf
    obtain ⟨g, hg, rfl⟩ := List.mem_map.1 hf
    simpa using ⟨g.2, hg⟩
  rw [reread_record, entries?]
  simp only [hknown, hfst, hnodup, if_true]

namespace Codec

theorem survives_archetype (a : Archetype) : Survives True a := by
  apply yields_of_eq
  show decode? (Document.text (Named.name a)).reread = some a
  rw [Document.reread_text]
  cases a <;> rfl

theorem survives_binding (b : Binding) : Survives True b := by
  apply yields_of_eq
  show decode? (Document.text (Named.name b)).reread = some b
  rw [Document.reread_text]
  cases b <;> rfl

theorem survives_sampler (s : Sampler) : Survives True s := by
  have hentries := Document.entries?_reread (d := encode s) ["seed", "counter"] (by decide) rfl rfl
  apply Yields.congr
  · exact (yields_of_eq hentries).bind ((survives_uint64 s.seed).bind ((survives_uint64 s.counter).bind
      (yields_of_eq rfl)))
  · simp

theorem survives_profile (p : Profile) : Survives True p := by
  have hentries := Document.entries?_reread (d := encode p) ["id", "name", "archetype", "background"] (by decide) rfl rfl
  have hbackground : Survives True p.background := by
    cases p.background with
    | none => exact survives_none
    | some s =>
      refine survives_some (survives_string s) ?_
      show (Document.text s).reread ≠ .null
      simp
  apply Yields.congr
  · exact (yields_of_eq hentries).bind (p.id.survives.bind ((survives_string p.name).bind
      ((survives_archetype p.archetype).bind (hbackground.bind (yields_of_eq rfl)))))
  · simp

/-- A link within fewer slots than 64 bits can count survives. -/
theorem survives_link {slots : Nat} (hslots : slots ≤ UInt64.size) {x : Option Nat}
    (hx : Links.inRange slots x = true) : Survives True x := by
  cases x with
  | none => exact survives_none
  | some k =>
    have hk : k < slots := by simpa [Links.inRange] using hx
    refine survives_some (survives_nat (Nat.lt_of_lt_of_le hk hslots)) ?_
    show (Document.int k).reread ≠ .null
    rw [Document.reread, Numeral.value_ofInt (by omega) (by omega)]
    simp

theorem survives_links {slots : Nat} (hslots : slots ≤ UInt64.size) {l : Links} (h : l.Within slots) :
    Survives True l := by
  have hentries := Document.entries?_reread (d := encode l) ["next", "prev", "last"] (by decide) rfl rfl
  have hnext := survives_array fun x hx => survives_link hslots (h.next x (Array.mem_toList_iff.1 hx))
  have hprev := survives_array fun x hx => survives_link hslots (h.prev x (Array.mem_toList_iff.1 hx))
  apply Yields.congr
  · exact (yields_of_eq hentries).bind (hnext.bind (hprev.bind ((survives_link hslots h.last).bind
      (yields_of_eq rfl))))
  · simp

end Codec

/-! ### Records of numbers -/

open Codec

/-- The numbers of a record. -/
def StateRecord.singles (r : StateRecord) : List Float32 := r.hidden.toList ++ r.cell.toList

theorem StateRecord.survives {r : StateRecord} (h : ∀ x ∈ r.singles, Legible x) :
    Survives (∀ x ∈ r.singles, x.isFinite = true) r := by
  have hentries := Document.entries?_reread (d := encode r) ["hidden", "cell", "steps"] (by decide) rfl rfl
  rw [singles, List.forall_mem_append] at h ⊢
  apply Yields.congr
  · exact (yields_of_eq hentries).bind ((survives_vec h.1).bind ((survives_vec h.2).bind
      ((survives_uint64 r.steps).bind (yields_of_eq rfl))))
  · simp

/-- The numbers of a record. -/
def Affect.singles (f : Affect) : List Float32 := f.values.toList ++ (f.baseline.toList ++ [f.sinceInteraction])

theorem Affect.survives {f : Affect} (h : ∀ x ∈ f.singles, Legible x) :
    Survives (∀ x ∈ f.singles, x.isFinite = true) f := by
  have hentries := Document.entries?_reread (d := encode f)
    ["values", "baseline", "since_interaction", "was_in_conversation", "met_player"] (by decide) rfl rfl
  simp only [singles, List.forall_mem_append, List.forall_mem_singleton] at h ⊢
  obtain ⟨hvalues, hbaseline, hsince⟩ := h
  apply Yields.congr
  · exact (yields_of_eq hentries).bind ((survives_vec hvalues).bind ((survives_vec hbaseline).bind
      ((survives_single hsince).bind ((survives_bool f.wasInConversation).bind
        ((survives_bool f.metPlayer).bind (yields_of_eq rfl))))))
  · simp

/-- The numbers of a record. -/
def MemoryRecord.singles (m : MemoryRecord) : List Float32 :=
  m.contents.toList ++ (m.usage.toList ++ m.importance.toList)

/-- The sizes of a record fit 64 bits. -/
structure MemoryRecord.InWords (m : MemoryRecord) : Prop where
  slots : m.slots < UInt64.size
  width : m.width < UInt64.size
  links : m.links.Within m.slots

theorem MemoryRecord.InWords.survives {m : MemoryRecord} (hm : m.InWords) (h : ∀ x ∈ m.singles, Legible x) :
    Survives (∀ x ∈ m.singles, x.isFinite = true) m := by
  have hentries := Document.entries?_reread (d := encode m)
    ["slots", "width", "contents", "usage", "importance", "occupied", "links", "writes"] (by decide) rfl rfl
  have hoccupied : Survives _ m.occupied := survives_array fun b _ => survives_bool b
  simp only [singles, List.forall_mem_append] at h ⊢
  obtain ⟨hcontents, husage, himportance⟩ := h
  apply Yields.congr
  · exact (yields_of_eq hentries).bind ((survives_nat hm.slots).bind ((survives_nat hm.width).bind
      ((survives_vec hcontents).bind ((survives_vec husage).bind ((survives_vec himportance).bind (hoccupied.bind
        ((survives_links (Nat.le_of_lt hm.slots) hm.links).bind
          ((survives_uint64 m.writes).bind (yields_of_eq rfl)))))))))
  · simp

theorem FisherTable.survives {t : FisherTable Float32} (hcount : t.parameterCount < UInt64.size)
    (ht : Sparse.InWords t.entries) (h : ∀ e ∈ t.entries, Legible e.2) :
    Survives (∀ e ∈ t.entries, e.2.isFinite = true) t := by
  have hentries := Document.entries?_reread (d := encode t) ["parameter_count", "entries"] (by decide) rfl rfl
  apply Yields.congr
  · exact (yields_of_eq hentries).bind ((survives_nat hcount).bind ((yields_of_eq rfl).bind
      ((ht.yields h).bind (yields_of_eq rfl))))
  · simp

/-- The numbers of a task. -/
def Task.singles (t : Task Float32) : List Float32 :=
  t.optimal.toList ++ (t.fisher.entries.map Prod.snd ++ [t.importance])

theorem Task.survives {t : Task Float32} (hcount : t.fisher.parameterCount < UInt64.size)
    (ht : Sparse.InWords t.fisher.entries) (h : ∀ x ∈ t.singles, Legible x) :
    Survives (∀ x ∈ t.singles, x.isFinite = true) t := by
  have hentries := Document.entries?_reread (d := encode t)
    ["id", "name", "optimal", "fisher", "importance", "created_tick"] (by decide) rfl rfl
  simp only [singles, List.forall_mem_append, List.forall_mem_singleton, List.forall_mem_map] at h ⊢
  obtain ⟨hoptimal, hfisher, himportance⟩ := h
  apply Yields.congr
  · exact (yields_of_eq hentries).bind (t.id.survives.bind ((survives_string t.name).bind
      ((survives_vec hoptimal).bind ((FisherTable.survives hcount ht hfisher).bind
        ((survives_single himportance).bind ((survives_uint64 t.createdTick).bind (yields_of_eq rfl)))))))
  · simp

/-- The numbers of a record. -/
def ConsolidatorRecord.singles (k : ConsolidatorRecord) : List Float32 :=
  k.lambda :: (k.previousValidation.toList ++ k.tasks.flatMap Task.singles)

/-- The sizes and places of a record fit its words, and nothing was validated. (What is not finite would be taken
for no validation, as both are written as `null`.) -/
structure ConsolidatorRecord.InWords (k : ConsolidatorRecord) : Prop where
  parameterCount : k.parameterCount < UInt64.size
  counts : ∀ t ∈ k.tasks, t.fisher.parameterCount < UInt64.size
  tables : ∀ t ∈ k.tasks, Sparse.InWords t.fisher.entries
  unvalidated : k.previousValidation = none

theorem ConsolidatorRecord.InWords.survives {k : ConsolidatorRecord} (hk : k.InWords)
    (h : ∀ x ∈ k.singles, Legible x) : Survives (∀ x ∈ k.singles, x.isFinite = true) k := by
  have hentries := Document.entries?_reread (d := encode k)
    ["parameter_count", "lambda", "previous_validation", "consolidations", "tasks"] (by decide) rfl rfl
  have hvalidation : Survives True k.previousValidation := by
    rw [hk.unvalidated]
    exact survives_none
  simp only [singles, hk.unvalidated, Option.toList_none, List.nil_append, List.forall_mem_cons,
    List.forall_mem_flatMap] at h ⊢
  obtain ⟨hlambda, htasks⟩ := h
  apply Yields.congr
  · exact (yields_of_eq hentries).bind ((survives_nat hk.parameterCount).bind ((survives_single hlambda).bind
      (hvalidation.bind ((survives_uint64 k.consolidations).bind ((survives_list fun t ht =>
        Task.survives (hk.counts t ht) (hk.tables t ht) (htasks t ht)).bind (yields_of_eq rfl))))))
  · simp

/-- The numbers of a record. -/
def AccumulatorRecord.singles (a : AccumulatorRecord) : List Float32 := a.sums.map Prod.snd

theorem AccumulatorRecord.survives {a : AccumulatorRecord} (ha : Sparse.InWords a.sums)
    (h : ∀ x ∈ a.singles, Legible x) : Survives (∀ x ∈ a.singles, x.isFinite = true) a := by
  have hentries := Document.entries?_reread (d := encode a) ["samples", "sums"] (by decide) rfl rfl
  simp only [singles, List.forall_mem_map] at h ⊢
  apply Yields.congr
  · exact (yields_of_eq hentries).bind ((survives_uint32 a.samples).bind ((yields_of_eq rfl).bind
      ((ha.yields h).bind (yields_of_eq rfl))))
  · simp

end NpcMind
