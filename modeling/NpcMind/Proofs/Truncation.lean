import NpcMind.Mind.Speech

/-!
# Lines that are cut short

Room is counted in bytes, and texts are cut between characters. A text with bounded room takes the longest
beginning of a fragment that leaves it within that room, so it holds whole characters only, whatever is set and
pushed and in whichever order. What follows a cut is not lost for good: a later fragment may begin with a smaller
character that still fits.

The lines that go with actions are never cut. Each is made of a few words and at most one phrase, and the room for
a phrase is so much smaller than the room for a line that the words always fit around it.
-/

namespace NpcMind

/-- The longest beginning of a text that can be taken, whole characters only. -/
structure LongestPrefix (Allowed : String → Prop) (whole piece : String) : Prop where
  begins : piece.toList <+: whole.toList
  allowed : Allowed piece
  longest : ∀ p : String, p.toList <+: whole.toList → Allowed p → p.toList <+: piece.toList

/-! ### Characters that fit -/

section Fitting

theorem fitting_begins (room : Nat) (cs : List Char) : fitting room cs <+: cs := by
  induction cs generalizing room with
  | nil => exact List.prefix_rfl
  | cons c rest ih =>
    unfold fitting
    split
    · exact List.prefix_cons_inj c |>.mpr (ih _)
    · exact List.nil_prefix

/-- A beginning that is within the room goes no further than the first character that is not. -/
theorem prefix_fitting {room : Nat} {cs ps : List Char} (hps : ps <+: cs)
    (hroom : (String.ofList ps).utf8ByteSize ≤ room) : ps <+: fitting room cs := by
  induction cs generalizing room ps with
  | nil => exact hps
  | cons c rest ih =>
    cases ps with
    | nil => exact List.nil_prefix
    | cons p ps =>
      obtain ⟨rfl, hrest⟩ := List.cons_prefix_cons.mp hps
      rw [String.ofList_cons, String.utf8ByteSize_append, String.utf8ByteSize_singleton] at hroom
      rw [fitting, if_pos (by omega)]
      exact List.cons_prefix_cons.mpr ⟨rfl, ih hrest (by omega)⟩

theorem fitting_of_le {room : Nat} {s : String} (h : s.utf8ByteSize ≤ room) : fitting room s.toList = s.toList := by
  refine (fitting_begins room s.toList).eq_of_length_le ?_
  exact (prefix_fitting List.prefix_rfl (by rwa [String.ofList_toList])).length_le

end Fitting

namespace BoundedText

variable {capacity : Nat}

/-- **A fragment is cut where the room ends**, and not before. -/
theorem append_longest (s : BoundedText capacity) (fragment : String) : ∃ piece,
    (s.append fragment).text = s.text ++ piece ∧
      LongestPrefix (fun p => (s.text ++ p).utf8ByteSize ≤ capacity) fragment piece := by
  have hfits := s.fits
  refine ⟨_, rfl, ?_, (s.append fragment).fits, fun p hp hroom => ?_⟩
  · rw [String.toList_ofList]
    exact fitting_begins _ _
  · rw [String.toList_ofList]
    refine prefix_fitting hp ?_
    rw [String.utf8ByteSize_append] at hroom
    rw [String.ofList_toList]
    omega

theorem ofText_longest (s : String) :
    LongestPrefix (fun p => p.utf8ByteSize ≤ capacity) s (ofText s : BoundedText capacity).text := by
  obtain ⟨piece, htext, hpiece⟩ := append_longest (empty : BoundedText capacity) s
  have hempty : (empty : BoundedText capacity).text = "" := rfl
  simp only [hempty, String.empty_append] at htext hpiece
  rw [ofText, htext]
  exact hpiece

theorem append_of_fits (s : BoundedText capacity) {fragment : String}
    (h : (s.text ++ fragment).utf8ByteSize ≤ capacity) : (s.append fragment).text = s.text ++ fragment := by
  rw [String.utf8ByteSize_append] at h
  show s.text ++ String.ofList (fitting _ fragment.toList) = s.text ++ fragment
  rw [fitting_of_le (by omega), String.ofList_toList]

end BoundedText

/-! ### Lines of speech -/

/-- What is asked of a line of speech. -/
inductive SpeechCall where
  | set (line : String)
  | push (fragment : String)

/-- How a call changes the line: it takes as much as there is room for. -/
inductive SpeechCall.Changes : SpeechCall → String → String → Prop
  | set {line piece : String} (before : String) :
      LongestPrefix (fun p => p.utf8ByteSize ≤ speechRoom) line piece → Changes (.set line) before piece
  | push {before fragment piece : String} :
      LongestPrefix (fun p => (before ++ p).utf8ByteSize ≤ speechRoom) fragment piece →
      Changes (.push fragment) before (before ++ piece)

/-- How calls in turn change the line. -/
inductive SpeechCall.ChangesAll : List SpeechCall → String → String → Prop
  | nil (line : String) : ChangesAll [] line line
  | cons {call : SpeechCall} {rest : List SpeechCall} {before between after : String} :
      call.Changes before between → ChangesAll rest between after → ChangesAll (call :: rest) before after

namespace Decision

/-- The decision after a call. -/
def serveSpeech (d : Decision) : SpeechCall → Decision
  | .set line => d.setSpeech line
  | .push fragment => d.pushSpeech fragment

/-- The decision after calls in turn. -/
def speak (d : Decision) (calls : List SpeechCall) : Decision := calls.foldl serveSpeech d

theorem pushSpeech_longest (d : Decision) (fragment : String) : ∃ piece,
    (d.pushSpeech fragment).speech.text = d.speech.text ++ piece ∧
      LongestPrefix (fun p => (d.speech.text ++ p).utf8ByteSize ≤ speechRoom) fragment piece :=
  d.speech.append_longest fragment

/-- **One call** takes as much into the line as there is room for. -/
theorem changes_serveSpeech (d : Decision) (call : SpeechCall) :
    call.Changes d.speech.text (d.serveSpeech call).speech.text := by
  cases call with
  | set line => exact .set _ (BoundedText.ofText_longest line)
  | push fragment =>
    obtain ⟨piece, htext, hpiece⟩ := d.pushSpeech_longest fragment
    rw [serveSpeech, htext]
    exact .push hpiece

/-- **Any sequence of calls** takes, at each, as much as there is room for. -/
theorem changesAll_speak (d : Decision) (calls : List SpeechCall) :
    SpeechCall.ChangesAll calls d.speech.text (d.speak calls).speech.text := by
  induction calls generalizing d with
  | nil => exact .nil _
  | cons call rest ih => exact .cons (d.changes_serveSpeech call) (ih (d.serveSpeech call))

/-- Nothing but the line changes. -/
theorem speak_eq (d : Decision) (calls : List SpeechCall) :
    d.speak calls = { d with speech := (d.speak calls).speech } := by
  induction calls generalizing d with
  | nil => rfl
  | cons call rest ih =>
    cases call with
    | set line => exact ih (d.setSpeech line)
    | push fragment => exact ih (d.pushSpeech fragment)

end Decision

/-! ### Lines that go with actions -/

namespace Speech

open Decision

theorem foldl_pushSpeech (d : Decision) {parts : List String}
    (h : (d.speech.text ++ String.join parts).utf8ByteSize ≤ speechRoom) :
    (parts.foldl pushSpeech d).speech.text = d.speech.text ++ String.join parts := by
  induction parts generalizing d with
  | nil => simp
  | cons part rest ih =>
    rw [String.join_cons, ← String.append_assoc] at h ⊢
    have hpart : (d.pushSpeech part).speech.text = d.speech.text ++ part :=
      d.speech.append_of_fits (by
        rw [String.utf8ByteSize_append] at h
        omega)
    rw [List.foldl_cons, ih, hpart]
    rwa [hpart]

/-- A remembered phrase is shorter than the room for one, and so is what stands in for it. -/
theorem utf8ByteSize_sharedExperience (e : Encounter) : (sharedExperience e).utf8ByteSize ≤ phraseRoom := by
  unfold sharedExperience
  split
  · decide
  · exact e.phrase.fits

/-- A line is silence, a few words, or a phrase with a few words around it. -/
inductive Framed (phrase : String) : List String → Prop
  | silence : Framed phrase []
  | words {line : String} : line.utf8ByteSize ≤ 64 → Framed phrase [line]
  | around {front back : String} : (front ++ back).utf8ByteSize ≤ 64 → Framed phrase [front, phrase, back]

theorem framed_parts (action : Action) (f : Affect) (dominant : Emotion) (e : Encounter) :
    Framed (sharedExperience e) (parts action f dominant e) := by
  cases action with
  | tellStory | recallMemory | shareExperience => exact .around (by decide +kernel)
  | greetNeutral | defend | retreat | offerTrade | acceptTrade | declineTrade => exact .words (by decide +kernel)
  | greetFriendly | greetHostile =>
    unfold parts
    dsimp only
    split
    · exact .words (by decide +kernel)
    · split <;> exact .words (by decide +kernel)
  | askQuestion =>
    unfold parts
    dsimp only
    split <;> exact .words (by decide +kernel)
  | expressEmotion => cases dominant <;> exact .words (by decide +kernel)
  | _ => exact .silence

/-- The words of a line leave room for every phrase. -/
theorem Framed.fits {phrase : String} {parts : List String} (h : Framed phrase parts)
    (hphrase : phrase.utf8ByteSize ≤ phraseRoom) : (String.join parts).utf8ByteSize ≤ speechRoom := by
  rw [phraseRoom] at hphrase
  rw [speechRoom]
  cases h with
  | silence => decide
  | words hwords =>
    simp only [String.join_cons, String.join_nil, String.utf8ByteSize_append, String.utf8ByteSize_empty]
    omega
  | around hwords =>
    rw [String.utf8ByteSize_append] at hwords
    simp only [String.join_cons, String.join_nil, String.utf8ByteSize_append, String.utf8ByteSize_empty]
    omega

theorem text_compose (d : Decision) (f : Affect) (e : Encounter) :
    (compose d f e).speech.text = String.join (parts d.action f d.dominantEmotion e) := by
  have hempty : ({ d with speech := .empty } : Decision).speech.text = "" := rfl
  rw [compose, foldl_pushSpeech, hempty, String.empty_append]
  rw [hempty, String.empty_append]
  exact (framed_parts d.action f d.dominantEmotion e).fits (utf8ByteSize_sharedExperience e)

theorem compose_eq (d : Decision) (f : Affect) (e : Encounter) :
    compose d f e = { d with speech := (compose d f e).speech } := by
  have h := ({ d with speech := .empty } : Decision).speak_eq
    ((parts d.action f d.dominantEmotion e).map SpeechCall.push)
  rw [speak, List.foldl_map] at h
  exact h

/-- **Texts are cut between characters, and as late as possible.** `pushSpeech fragment` appends the `LongestPrefix`
of `fragment` that keeps the line within 256 bytes. After any `calls`, the line is valid UTF-8 within 256 bytes, is
what `ChangesAll` says, and is all of the decision that changed. `withPhrase` keeps the longest prefix within 128
bytes. The line that `compose` makes is the join of all its `parts`, uncut, and nothing else of the decision changes;
for the three actions that recall something, it has the whole phrase in it. -/
theorem cut_between_characters (d : Decision) (fragment : String) (calls : List SpeechCall) (f : Affect)
    (e : Encounter) (given : String) :
    (∃ piece, (d.pushSpeech fragment).speech.text = d.speech.text ++ piece ∧
      LongestPrefix (fun p => (d.speech.text ++ p).utf8ByteSize ≤ 256) fragment piece) ∧
    ((d.speak calls).speech.text.toUTF8.validateUTF8 = true ∧ (d.speak calls).speech.text.toUTF8.size ≤ 256 ∧
      SpeechCall.ChangesAll calls d.speech.text (d.speak calls).speech.text ∧
      d.speak calls = { d with speech := (d.speak calls).speech }) ∧
    LongestPrefix (fun p => p.utf8ByteSize ≤ 128) given (e.withPhrase given).phrase.text ∧
    (compose d f e).speech.text = String.join (parts d.action f d.dominantEmotion e) ∧
    compose d f e = { d with speech := (compose d f e).speech } ∧
    ∃ phrase, phrase = (if e.phrase.text = "" then "first met" else e.phrase.text) ∧
      (compose { d with action := .tellStory } f e).speech.text =
        "Let me tell you about the time we " ++ phrase ++ "..." ∧
      (compose { d with action := .recallMemory } f e).speech.text =
        "That reminds me of when we " ++ phrase ++ " together." ∧
      (compose { d with action := .shareExperience } f e).speech.text = "Remember when we " ++ phrase ++ "?" := by
  refine ⟨d.pushSpeech_longest fragment, ⟨?_, (d.speak calls).speech.fits, d.changesAll_speak calls,
    d.speak_eq calls⟩, BoundedText.ofText_longest given, text_compose d f e, compose_eq d f e,
    sharedExperience e, rfl, ?_, ?_, ?_⟩
  · exact ByteArray.validateUTF8_eq_true_iff.mpr (d.speak calls).speech.text.isValidUTF8
  all_goals
    rw [text_compose]
    simp only [parts, String.join_cons, String.join_nil, String.append_empty, String.append_assoc]

/-- A character that does not fit is dropped with all that follows, and a smaller one may still be added later. -/
example : ((BoundedText.ofText "né€!" : BoundedText 5).append "!").text = "né!" := by decide

end Speech

end NpcMind
