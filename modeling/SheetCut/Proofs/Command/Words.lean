import SheetCut.Proofs.Command.Printed

/-!
# Words in any order

The words of a motion line may stand in any order, with blanks between them or without. A word is
found by its letter: neither a mnemonic nor a blank nor the value of another word holds it, and a
value ends where the next word or the blanks in front of it begin.
-/

namespace SheetCut

open Text Numeral

namespace Motion

def wordLetters : List Char := ['X', 'Y', 'Z', 'I', 'J', 'F']

structure SpacedWord where
  spacing : List Char
  letter : Char
  value : List Char

namespace SpacedWord

def text (w : SpacedWord) : List Char := w.spacing ++ w.letter :: w.value

/-- What the word says: all but the blanks. -/
def wording (w : SpacedWord) : Char × List Char := (w.letter, w.value)

structure IsWritten (w : SpacedWord) : Prop where
  spacing : IsSpacing w.spacing
  letter : w.letter ∈ wordLetters
  value : IsWordValue w.value

end SpacedWord

def spacedText (ws : List SpacedWord) : List Char := ws.flatMap SpacedWord.text

/-- A mnemonic with words, or words alone, of which the first one is one of the plane or the height.
No letter has two words. -/
structure IsMotionLine (head : List Char) (ws : List SpacedWord) : Prop where
  isMnemonic : IsMnemonic head
  isWritten : ∀ w ∈ ws, w.IsWritten
  nodup : (ws.map SpacedWord.letter).Nodup
  begins : head ≠ [] ∨ ∃ w ∈ ws.head?, w.letter = 'X' ∨ w.letter = 'Y' ∨ w.letter = 'Z'

section Row

variable {ws : List SpacedWord} {w : SpacedWord} {letter c : Char}

/-- No blank and no value holds the letter of a word. -/
theorem letter_facts (h : letter ∈ wordLetters) :
    isBlank letter = false ∧ isDigit letter = false ∧ letter ≠ '+' ∧ letter ≠ '-' ∧ letter ≠ '.' ∧
      letter ≠ 'G' ∧ letter ≠ 'M' ∧ letter ≠ '\n' := by
  simp only [wordLetters, List.mem_cons, List.not_mem_nil, or_false] at h
  rcases h with rfl | rfl | rfl | rfl | rfl | rfl <;> decide

theorem isDigit_of_isBlank (h : isBlank c = true) : isDigit c = false := by
  by_contra hdigit
  rw [isBlank_of_isDigit (by simpa using hdigit)] at h
  cases h

theorem SpacedWord.IsWritten.not_mem_spacing (hw : w.IsWritten) (h : letter ∈ wordLetters) :
    letter ∉ w.spacing := by
  intro hmem
  simpa [(letter_facts h).1] using (hw.spacing letter hmem).1

theorem SpacedWord.IsWritten.not_mem_value (hw : w.IsWritten) (h : letter ∈ wordLetters) :
    letter ∉ w.value := by
  intro hmem
  have hletter := letter_facts h
  rcases hw.value.mem hmem with hc | hc | hc | hc <;> simp_all

theorem endsMantissa_spacedText (hws : ∀ w ∈ ws, w.IsWritten) : EndsMantissa (spacedText ws) := by
  intro c hc
  cases ws with
  | nil => cases hc
  | cons w ws =>
    have hw := hws w List.mem_cons_self
    rw [spacedText, List.flatMap_cons, SpacedWord.text] at hc
    cases hspacing : w.spacing with
    | nil =>
      rw [hspacing] at hc
      cases hc
      have hletter := letter_facts hw.letter
      exact ⟨hletter.2.1, hletter.2.2.2.2.1⟩
    | cons d ds =>
      rw [hspacing] at hc
      cases hc
      have hblank := (hw.spacing c (by simp [hspacing])).1
      refine ⟨isDigit_of_isBlank hblank, ?_⟩
      rintro rfl
      cases hblank

/-- The first word with the letter is found, whatever stands in front of it. -/
theorem word?_spacedText (hws : ∀ w ∈ ws, w.IsWritten) (h : letter ∈ wordLetters) :
    word? letter (spacedText ws) = (ws.map SpacedWord.wording).lookup letter := by
  induction ws with
  | nil => rfl
  | cons w ws ih =>
    have hw := hws w List.mem_cons_self
    have hrest : ∀ w ∈ ws, w.IsWritten := fun v hv => hws v (List.mem_cons_of_mem w hv)
    have hline : spacedText (w :: ws) =
        w.spacing ++ w.letter :: (w.value ++ spacedText ws) := by
      simp [spacedText, SpacedWord.text]
    rw [hline, word?_append_of_not_mem (hw.not_mem_spacing h), word?]
    by_cases heq : w.letter = letter
    · rw [if_pos heq, hw.value.wordValue?_append (endsMantissa_spacedText hrest)]
      simp [SpacedWord.wording, heq]
    · rw [if_neg heq, word?_append_of_not_mem (hw.not_mem_value h), ih hrest]
      simp [SpacedWord.wording, List.lookup_cons, beq_eq_false_iff_ne.2 (Ne.symm heq)]

theorem not_mem_spacedText (hws : ∀ w ∈ ws, w.IsWritten) : '\n' ∉ spacedText ws := by
  intro hmem
  rw [spacedText, List.mem_flatMap] at hmem
  obtain ⟨w, hw, hmem⟩ := hmem
  have hw := hws w hw
  rw [SpacedWord.text, List.mem_append, List.mem_cons] at hmem
  rcases hmem with hmem | hmem | hmem
  · exact hw.spacing.not_mem hmem
  · simpa [← hmem] using letter_facts hw.letter
  · simpa [isBlank] using hw.value.isBlank_of_mem hmem

theorem isBlank_of_getLast?_spacedText (hws : ∀ w ∈ ws, w.IsWritten)
    (hc : (spacedText ws).getLast? = some c) : isBlank c = false := by
  induction ws with
  | nil => cases hc
  | cons w ws ih =>
    rw [spacedText, List.flatMap_cons, List.getLast?_append, Option.or_eq_some_iff] at hc
    rcases hc with hc | ⟨-, hc⟩
    · exact ih (fun v hv => hws v (List.mem_cons_of_mem w hv)) hc
    · have hvalue := (hws w List.mem_cons_self).value
      rw [SpacedWord.text, List.getLast?_append_of_ne_nil _ (List.cons_ne_nil _ _),
        List.getLast?_cons_of_ne_nil hvalue.ne_nil] at hc
      exact hvalue.isBlank_of_mem (List.mem_of_getLast? hc)

end Row

/-- The motion that a mnemonic and words say. A word that is not there is not zero. -/
def ofWording (head : List Char) (words : List (Char × List Char)) : Motion Float :=
  let field (letter : Char) : Option Float := (words.lookup letter).map lenientNumber
  { mnemonic := String.ofList head
    x := field 'X', y := field 'Y', z := field 'Z', i := field 'I', j := field 'J', f := field 'F' }

section Line

variable {head : List Char} {ws vs : List SpacedWord}

theorem mnemonic?_append (h : IsMnemonic head) (hne : head ≠ []) {rest : List Char}
    (hrest : EndsMantissa rest) : mnemonic? (head ++ rest) = some head := by
  cases h with
  | bare => exact absurd rfl hne
  | code hc hds hdigits =>
    rw [List.cons_append, mnemonic?, Json.takeWhile_append_of_head,
      List.takeWhile_eq_self_iff.2 hdigits, if_pos ⟨hc, hds⟩]
    intro c hc
    simp [(hrest c hc).1]

theorem ofLine_spacedText (h : IsMnemonic head) (hws : ∀ w ∈ ws, w.IsWritten)
    (hread : (mnemonic? (head ++ spacedText ws)).getD [] = head) :
    ofLine (head ++ spacedText ws) = ofWording head (ws.map SpacedWord.wording) := by
  have hword : ∀ letter ∈ wordLetters, (word letter (head ++ spacedText ws) : Option Float) =
      ((ws.map SpacedWord.wording).lookup letter).map lenientNumber := by
    intro letter hletter
    obtain ⟨-, hdigit, -, -, -, hG, hM, -⟩ := letter_facts hletter
    rw [word, word?_append_of_not_mem (h.not_mem hG hM hdigit), word?_spacedText hws hletter]
  rw [ofLine, hread, hword 'X' (by decide), hword 'Y' (by decide), hword 'Z' (by decide),
    hword 'I' (by decide), hword 'J' (by decide), hword 'F' (by decide)]
  rfl

theorem command_of_mnemonic (h : IsMotionLine head ws) (hne : head ≠ []) :
    (Command.ofLine (trim (head ++ spacedText ws)) : List (Command Float)) =
      [.motion (ofWording head (ws.map SpacedWord.wording))] := by
  have hread := mnemonic?_append h.isMnemonic hne (endsMantissa_spacedText h.isWritten)
  have hhead : ∀ c, (head ++ spacedText ws).head? = some c → c = 'G' ∨ c = 'M' := by
    intro c hc
    cases h.isMnemonic with
    | bare => exact absurd rfl hne
    | code hcode =>
      cases hc
      exact hcode
  have htrim : trim (head ++ spacedText ws) = head ++ spacedText ws := by
    apply trim_eq_self
    · intro c hc
      rcases hhead c hc with rfl | rfl <;> rfl
    · intro c hc
      rw [List.getLast?_append, Option.or_eq_some_iff] at hc
      rcases hc with hc | ⟨-, hc⟩
      · exact isBlank_of_getLast?_spacedText h.isWritten hc
      · cases h.isMnemonic with
        | bare => exact absurd rfl hne
        | code hcode hds hdigits =>
          rw [List.getLast?_cons_of_ne_nil hds] at hc
          exact isBlank_of_isDigit (hdigits c (List.mem_of_getLast? hc))
  rw [htrim, Command.ofLine_motion, ofLine_spacedText h.isMnemonic h.isWritten]
  · rw [hread]
    rfl
  · intro c hc
    rcases hhead c hc with rfl | rfl <;> decide
  · left
    rw [hread]
    rfl

/-- The blanks in front of the first word are removed, and it is then the head of the line. -/
theorem command_of_words (h : IsMotionLine [] ws) :
    (Command.ofLine (trim (spacedText ws)) : List (Command Float)) =
      [.motion (ofWording [] (ws.map SpacedWord.wording))] := by
  obtain ⟨w, hw, hletter⟩ := h.begins.resolve_left (not_not.2 rfl)
  obtain ⟨rest, rfl⟩ := List.head?_eq_some_iff.1 hw
  have hwritten := h.isWritten w List.mem_cons_self
  let first : SpacedWord := ⟨[], w.letter, w.value⟩
  have hwords : ∀ v ∈ first :: rest, v.IsWritten := by
    intro v hv
    rcases List.mem_cons.1 hv with rfl | hv
    · exact ⟨isSpacing_nil, hwritten.letter, hwritten.value⟩
    · exact h.isWritten v (List.mem_cons_of_mem w hv)
  have hline : spacedText (w :: rest) = w.spacing ++ spacedText (first :: rest) := by
    simp [spacedText, SpacedWord.text, first]
  have hhead : ∀ c, (spacedText (first :: rest)).head? = some c → c = 'X' ∨ c = 'Y' ∨ c = 'Z' := by
    intro c hc
    cases hc
    exact hletter
  have hread : mnemonic? (spacedText (first :: rest)) = none := by
    change mnemonic? (w.letter :: (w.value ++ spacedText rest)) = none
    rw [mnemonic?, if_neg]
    rcases hletter with hletter | hletter | hletter <;> simp [hletter]
  have htrim : trim (spacedText (w :: rest)) = spacedText (first :: rest) := by
    rw [hline, trim, trimStart_append_of_spacing hwritten.spacing, ← trim]
    apply trim_eq_self
    · intro c hc
      rcases hhead c hc with rfl | rfl | rfl <;> rfl
    · intro c hc
      exact isBlank_of_getLast?_spacedText hwords hc
  have hmotion : ofLine (spacedText (first :: rest)) =
      ofWording [] ((first :: rest).map SpacedWord.wording) := by
    apply ofLine_spacedText .bare hwords
    rw [List.nil_append, hread]
    rfl
  rw [htrim, Command.ofLine_motion, hmotion]
  · rfl
  · intro c hc
    rcases hhead c hc with rfl | rfl | rfl <;> decide
  · right
    exact ⟨w.letter, rfl, hletter⟩

theorem ofText_spacedText (h : IsMotionLine head ws) {pre post : List Char} (hpre : IsSpacing pre)
    (hpost : IsSpacing post) :
    (Command.ofText (String.ofList (pre ++ (head ++ spacedText ws) ++ post)) :
      List (Command Float)) = [.motion (ofWording head (ws.map SpacedWord.wording))] := by
  have hline : '\n' ∉ pre ++ (head ++ spacedText ws) ++ post := by
    simp only [List.mem_append, not_or]
    exact ⟨⟨hpre.not_mem, h.isMnemonic.not_mem (by decide) (by decide) (by decide),
      not_mem_spacedText h.isWritten⟩, hpost.not_mem⟩
  rw [Command.ofText_of_not_mem (by rwa [String.toList_ofList]), String.toList_ofList,
    trim_surrounded hpre hpost]
  by_cases hne : head = []
  · subst hne
    exact command_of_words h
  · exact command_of_mnemonic h hne

theorem lookup_eq_some_iff {words : List (Char × List Char)} (h : (words.map Prod.fst).Nodup)
    {letter : Char} {value : List Char} :
    words.lookup letter = some value ↔ (letter, value) ∈ words := by
  induction words with
  | nil => simp
  | cons w words ih =>
    obtain ⟨first, v⟩ := w
    rw [List.map_cons, List.nodup_cons] at h
    by_cases heq : letter = first
    · subst heq
      have hnot : (letter, value) ∉ words := fun hmem => h.1 (List.mem_map.2 ⟨_, hmem, rfl⟩)
      simp [hnot, eq_comm]
    · simp [List.lookup_cons, beq_eq_false_iff_ne.2 heq, heq, ih h.2]

theorem lookup_eq_of_perm {words words' : List (Char × List Char)} (hperm : words'.Perm words)
    (h : (words.map Prod.fst).Nodup) (letter : Char) :
    words'.lookup letter = words.lookup letter := by
  have h' : (words'.map Prod.fst).Nodup := (hperm.map Prod.fst).nodup_iff.2 h
  ext value
  rw [lookup_eq_some_iff h', lookup_eq_some_iff h, hperm.mem_iff]

theorem ofWording_eq_of_perm {words words' : List (Char × List Char)} (hperm : words'.Perm words)
    (h : (words.map Prod.fst).Nodup) : ofWording head words' = ofWording head words := by
  simp only [ofWording, lookup_eq_of_perm hperm h]

theorem mem_words_ofWording {words : List (Char × List Char)} (h : (words.map Prod.fst).Nodup)
    {letter : Char} {field : Option Float} (hfield : (letter, field) ∈ (ofWording head words).words)
    (x : Float) :
    field = some x ↔ ∃ value, (letter, value) ∈ words ∧ lenientNumber value = x := by
  have heq : field = (words.lookup letter).map lenientNumber := by
    simp only [Motion.words, ofWording, List.mem_cons, List.not_mem_nil, or_false,
      Prod.mk.injEq] at hfield
    rcases hfield with ⟨rfl, h⟩ | ⟨rfl, h⟩ | ⟨rfl, h⟩ | ⟨rfl, h⟩ | ⟨rfl, h⟩ | ⟨rfl, h⟩ <;> exact h
  simp only [heq, Option.map_eq_some_iff, lookup_eq_some_iff h]

theorem IsMotionLine.nodup_wording (h : IsMotionLine head ws) :
    ((ws.map SpacedWord.wording).map Prod.fst).Nodup := by
  rw [List.map_map]
  exact h.nodup

end Line

end Motion

namespace Command

open Motion

/-- A motion line gives one motion. Each of its fields is the number of the word with its letter,
and none where there is no such word; the order of the words and the blanks between and around them
make no difference. -/
theorem ofText_motionLine {head : List Char} {ws : List SpacedWord} (h : IsMotionLine head ws) :
    ∃ m : Motion Float, m.mnemonic = String.ofList head ∧
      (∀ letter field, (letter, field) ∈ m.words → ∀ x, field = some x ↔
        ∃ value, (letter, value) ∈ ws.map SpacedWord.wording ∧ lenientNumber value = x) ∧
      ∀ (vs : List SpacedWord) (pre post : List Char), IsMotionLine head vs →
        (vs.map SpacedWord.wording).Perm (ws.map SpacedWord.wording) → IsSpacing pre →
        IsSpacing post →
        ofText (String.ofList (pre ++ (head ++ spacedText vs) ++ post)) = [motion m] := by
  have hnodup := h.nodup_wording
  refine ⟨ofWording head (ws.map SpacedWord.wording), rfl, ?_, ?_⟩
  · intro letter field hfield
    exact mem_words_ofWording hnodup hfield
  · intro vs pre post hvs hperm hpre hpost
    rw [ofText_spacedText hvs hpre hpost, ofWording_eq_of_perm hperm hnodup]

/-- An arc whose words stand in an unusual order, with a word that is no number and without the
words of the height and the speed. -/
def unorderedArc : List SpacedWord :=
  [⟨[], 'J', ['-', '.', '5']⟩, ⟨['\t', ' '], 'Y', ['.']⟩, ⟨[], 'X', ['+', '1', '.', '2', '.', '3']⟩,
    ⟨['\u3000'], 'I', ['7']⟩]

theorem isMotionLine_unorderedArc : IsMotionLine ['G', '0', '3'] unorderedArc := by
  constructor
  · exact .code (.inl rfl) (List.cons_ne_nil _ _) (by simp; decide)
  · simp only [unorderedArc, List.forall_mem_cons]
    refine ⟨⟨isSpacing_nil, by decide, ?_⟩, ⟨by decide, by decide, ?_⟩,
      ⟨isSpacing_nil, by decide, ?_⟩, ⟨by decide, by decide, ?_⟩, List.forall_mem_nil _⟩
    · exact .signed (.inr rfl) (List.cons_ne_nil _ _) (by simp; decide)
    · exact .unsigned (List.cons_ne_nil _ _) (by simp)
    · exact .signed (.inl rfl) (List.cons_ne_nil _ _) (by simp; decide)
    · exact .unsigned (List.cons_ne_nil _ _) (by simp; decide)
  · decide
  · exact .inl (List.cons_ne_nil _ _)

theorem ofText_motionLine_unorderedArc :
    IsMotionLine ['G', '0', '3'] unorderedArc ∧
      IsMotionLine ['G', '0', '3'] unorderedArc.reverse ∧
      ∃ m : Motion Float, m.mnemonic = "G03" ∧ m.x = some 1.2 ∧ m.y = some 0 ∧ m.z = none ∧
        m.i = some 7 ∧ m.j = some (-0.5) ∧ m.f = none ∧
        ofText " G03J-.5\t Y.X+1.2.3\u3000I7" = [motion m] ∧
        ofText "G03\u3000I7X+1.2.3\t Y.J-.5\r" = [motion m] := by
  have hline := isMotionLine_unorderedArc
  have hreverse : IsMotionLine ['G', '0', '3'] unorderedArc.reverse := by
    constructor
    · exact hline.isMnemonic
    · simpa using hline.isWritten
    · decide
    · exact .inl (List.cons_ne_nil _ _)
  obtain ⟨m, hmnemonic, hfields, htext⟩ := ofText_motionLine hline
  have hsome : ∀ letter value field, (letter, field) ∈ m.words →
      (letter, value) ∈ unorderedArc.map SpacedWord.wording → field = some (lenientNumber value) :=
    fun letter value field hfield hvalue =>
      (hfields letter field hfield _).2 ⟨value, hvalue, rfl⟩
  have hnone : ∀ letter field, (letter, field) ∈ m.words →
      letter ∉ unorderedArc.map SpacedWord.letter → field = none := by
    intro letter field hfield hletter
    apply Option.eq_none_iff_forall_ne_some.2
    intro x hx
    obtain ⟨value, hvalue, -⟩ := (hfields letter field hfield x).1 hx
    obtain ⟨w, hw, hwording⟩ := List.mem_map.1 hvalue
    exact hletter (List.mem_map.2 ⟨w, hw, congrArg Prod.fst hwording⟩)
  refine ⟨hline, hreverse, m, hmnemonic, ?_, ?_, ?_, ?_, ?_, ?_, ?_, ?_⟩
  · exact hsome 'X' _ _ (by simp [words]) (by decide : ('X', ['+', '1', '.', '2', '.', '3']) ∈ _)
  · exact hsome 'Y' _ _ (by simp [words]) (by decide : ('Y', ['.']) ∈ _)
  · exact hnone 'Z' _ (by simp [words]) (by decide)
  · exact hsome 'I' _ _ (by simp [words]) (by decide : ('I', ['7']) ∈ _)
  · exact hsome 'J' _ _ (by simp [words]) (by decide : ('J', ['-', '.', '5']) ∈ _)
  · exact hnone 'F' _ (by simp [words]) (by decide)
  · exact htext unorderedArc [' '] [] hline (List.Perm.refl _) (by decide) isSpacing_nil
  · exact htext unorderedArc.reverse [] ['\r'] hreverse
      ((List.reverse_perm _).map _) isSpacing_nil (by decide)

end Command

end SheetCut
