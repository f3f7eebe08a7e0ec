import SheetCut.Proofs.Command.Lines
import SheetCut.Proofs.Decimal.ReadBack

/-!
# Commands read back from their texts

The text of a comment, of a block number, of a call without arguments or of a motion with finite
words is a line that gives this command and no other. A program of such commands is therefore read
back from their texts, one on each line.

The words of a motion are found by their letters, so a word of its text must not be found inside
another one: the text of a finite number holds no letter, and a mnemonic only the `G` or the `M` in
front. Bare coordinates are written with a blank in front of them, which reading removes.
-/

namespace SheetCut

open Text

namespace Motion

variable {letter : Char}

inductive IsWordValue : List Char → Prop
  | unsigned {body : List Char} (hne : body ≠ [])
      (hbody : ∀ c ∈ body, isDigit c = true ∨ c = '.') : IsWordValue body
  | signed {sign : Char} {body : List Char} (hsign : sign = '+' ∨ sign = '-') (hne : body ≠ [])
      (hbody : ∀ c ∈ body, isDigit c = true ∨ c = '.') : IsWordValue (sign :: body)

section Value

open Numeral

variable {value rest : List Char} {c : Char}

theorem IsWordValue.mem (h : IsWordValue value) (hc : c ∈ value) :
    c = '+' ∨ c = '-' ∨ isDigit c = true ∨ c = '.' := by
  cases h with
  | unsigned hne hbody => exact .inr (.inr (hbody c hc))
  | signed hsign hne hbody =>
    rcases List.mem_cons.1 hc with rfl | hc
    · exact hsign.imp_right .inl
    · exact .inr (.inr (hbody c hc))

theorem IsWordValue.isBlank_of_mem (h : IsWordValue value) (hc : c ∈ value) :
    isBlank c = false := by
  rcases h.mem hc with rfl | rfl | hc | rfl
  · rfl
  · rfl
  · exact isBlank_of_isDigit hc
  · rfl

theorem IsWordValue.ne_nil (h : IsWordValue value) : value ≠ [] := by
  cases h with
  | unsigned hne => exact hne
  | signed => exact List.cons_ne_nil _ _

theorem takeWhile_value {body : List Char} (hbody : ∀ c ∈ body, isDigit c = true ∨ c = '.')
    (hrest : EndsMantissa rest) :
    (body ++ rest).takeWhile (fun c => isDigit c || c == '.') = body := by
  rw [Json.takeWhile_append_of_head, List.takeWhile_eq_self_iff]
  · simpa using hbody
  · intro c hc
    simp [hrest c hc]

theorem IsWordValue.wordValue?_append (h : IsWordValue value) (hrest : EndsMantissa rest) :
    wordValue? (value ++ rest) = some value := by
  cases h with
  | @unsigned body hne hbody =>
    cases value with
    | nil => exact absurd rfl hne
    | cons c cs =>
      have hsign := takeSign_of_isDigit_or_point (hbody c List.mem_cons_self) (cs ++ rest)
      have hvalue := takeWhile_value hbody hrest
      rw [List.cons_append] at hvalue ⊢
      simp only [wordValue?, hsign, hvalue]
      simp
  | @signed sign body hsign hne hbody =>
    have hvalue := takeWhile_value hbody hrest
    rcases hsign with rfl | rfl
    · simp [wordValue?, takeSign, hvalue, hne]
    · simp [wordValue?, takeSign, hvalue, hne]

/-- The text of a finite float is the value of a word. -/
theorem isWordValue_text {v : Float} (hv : v.isFinite = true) :
    IsWordValue (Decimal.plain.text v).toList := by
  obtain ⟨negative, whole, fraction, hplain, htext, -⟩ := Decimal.exists_plainText_of_isFinite hv
  have hne : plainText false whole fraction ≠ [] :=
    List.append_ne_nil_of_left_ne_nil hplain.ne_nil _
  have hbody : ∀ c ∈ plainText false whole fraction, isDigit c = true ∨ c = '.' := by
    intro c hc
    rcases mem_plainText hc with ⟨hfalse, -⟩ | rfl | hc | hc
    · cases hfalse
    · exact .inr rfl
    · exact .inl (isDigit_of_isAsciiDigit (hplain.whole c hc))
    · exact .inl (isDigit_of_isAsciiDigit (hplain.fraction c hc))
  rw [htext]
  cases negative with
  | true => exact .signed (.inr rfl) hne hbody
  | false => exact .unsigned hne hbody

end Value

/-! ### Words -/

theorem word?_append_of_not_mem {pre : List Char} (h : letter ∉ pre) (rest : List Char) :
    word? letter (pre ++ rest) = word? letter rest := by
  induction pre with
  | nil => rfl
  | cons c cs ih =>
    rw [List.mem_cons, not_or] at h
    rw [List.cons_append, word?, if_neg (Ne.symm h.1), ih h.2]

theorem word?_of_not_mem {line : List Char} (h : letter ∉ line) : word? letter line = none := by
  rw [← List.append_nil line, word?_append_of_not_mem h]
  rfl

def words {α : Type} (m : Motion α) : List (Char × Option α) :=
  [('X', m.x), ('Y', m.y), ('Z', m.z), ('I', m.i), ('J', m.j), ('F', m.f)]

def wordText : Char × Option Float → List Char
  | (_, none) => []
  | (letter, some v) => ' ' :: letter :: (Decimal.plain.text v).toList

def wordsText (ws : List (Char × Option Float)) : List Char := ws.flatMap wordText

/-- A character that neither a number nor the blank in front of a word holds. -/
def IsWordLetter (c : Char) : Prop := c ≠ ' ' ∧ c ≠ '-' ∧ c ≠ '.' ∧ isDigit c = false

instance (c : Char) : Decidable (IsWordLetter c) := inferInstanceAs (Decidable (_ ∧ _))

def AreFinite (ws : List (Char × Option Float)) : Prop :=
  ∀ w ∈ ws, ∀ v, w.2 = some v → v.isFinite = true

section Word

variable {v : Float} (hv : v.isFinite = true)
include hv

theorem wordValue?_text {rest : List Char} (hrest : ∀ c, rest.head? = some c → c = ' ') :
    wordValue? ((Decimal.plain.text v).toList ++ rest) = some (Decimal.plain.text v).toList := by
  apply (isWordValue_text hv).wordValue?_append
  intro c hc
  rw [hrest c hc]
  decide

theorem isBlank_of_getLast?_wordText {w : Char × Option Float} (hw : w.2 = some v) {c : Char}
    (h : (wordText w).getLast? = some c) : isBlank c = false := by
  have hvalue := isWordValue_text hv
  obtain ⟨letter, value⟩ := w
  cases hw
  change ([' ', letter] ++ (Decimal.plain.text v).toList).getLast? = some c at h
  rw [List.getLast?_append_of_ne_nil _ hvalue.ne_nil] at h
  exact hvalue.isBlank_of_mem (List.mem_of_getLast? h)

theorem IsWordLetter.not_mem_text (h : IsWordLetter letter) :
    letter ∉ (Decimal.plain.text v).toList := by
  obtain ⟨negative, whole, fraction, hplain, htext, -⟩ := Decimal.exists_plainText_of_isFinite hv
  obtain ⟨-, hminus, hpoint, hdigit⟩ := h
  rw [htext]
  intro hmem
  rcases Numeral.mem_plainText hmem with ⟨-, hc⟩ | hc | hc | hc
  · exact hminus hc
  · exact hpoint hc
  · exact absurd (isDigit_of_isAsciiDigit (hplain.whole _ hc)) (by simp [hdigit])
  · exact absurd (isDigit_of_isAsciiDigit (hplain.fraction _ hc)) (by simp [hdigit])

end Word

theorem IsWordLetter.not_mem_wordText (h : IsWordLetter letter) {w : Char × Option Float}
    (hw : ∀ v, w.2 = some v → v.isFinite = true) (hne : letter ≠ w.1) : letter ∉ wordText w := by
  obtain ⟨first, _ | v⟩ := w
  · exact List.not_mem_nil
  · rw [wordText, List.mem_cons, List.mem_cons, not_or, not_or]
    exact ⟨h.1, hne, h.not_mem_text (hw v rfl)⟩

section Words

variable {ws : List (Char × Option Float)}

theorem AreFinite.tail {w : Char × Option Float} (h : AreFinite (w :: ws)) : AreFinite ws :=
  fun w' hw' => h w' (List.mem_cons_of_mem w hw')

theorem head?_wordsText {c : Char} (h : (wordsText ws).head? = some c) : c = ' ' := by
  induction ws with
  | nil => cases h
  | cons w ws ih =>
    rw [wordsText, List.flatMap_cons] at h
    obtain ⟨letter, _ | v⟩ := w
    · exact ih h
    · cases h
      rfl

theorem isBlank_of_getLast?_wordsText (hws : AreFinite ws) {c : Char}
    (h : (wordsText ws).getLast? = some c) : isBlank c = false := by
  induction ws with
  | nil => cases h
  | cons w ws ih =>
    rw [wordsText, List.flatMap_cons, List.getLast?_append, Option.or_eq_some_iff] at h
    rcases h with h | ⟨-, h⟩
    · exact ih hws.tail h
    · obtain ⟨letter, _ | v⟩ := w
      · cases h
      · exact isBlank_of_getLast?_wordText (hws _ List.mem_cons_self v rfl) rfl h

theorem IsWordLetter.not_mem_wordsText (h : IsWordLetter letter) (hws : AreFinite ws)
    (hletter : letter ∉ ws.map Prod.fst) : letter ∉ wordsText ws := by
  intro hmem
  obtain ⟨w, hw, hmem⟩ := List.mem_flatMap.1 hmem
  have hne : letter ≠ w.1 := fun heq => hletter (List.mem_map.2 ⟨w, hw, heq.symm⟩)
  exact h.not_mem_wordText (hws w hw) hne hmem

/-- A word is found by its letter, whatever words stand in front of it. -/
theorem word?_wordsText (hnodup : (ws.map Prod.fst).Nodup) (hws : AreFinite ws)
    {value : Option Float} (h : (letter, value) ∈ ws) (hletter : IsWordLetter letter) :
    word? letter (wordsText ws) = value.map fun v => (Decimal.plain.text v).toList := by
  induction ws with
  | nil => cases h
  | cons w ws ih =>
    rw [List.map_cons, List.nodup_cons] at hnodup
    rcases List.mem_cons.1 h with rfl | h
    · cases value with
      | none =>
        show word? letter (wordsText ws) = none
        exact word?_of_not_mem (hletter.not_mem_wordsText hws.tail hnodup.1)
      | some v =>
        show word? letter (' ' :: letter :: ((Decimal.plain.text v).toList ++ wordsText ws)) = _
        rw [word?, if_neg (Ne.symm hletter.1), word?, if_pos rfl,
          wordValue?_text (hws _ List.mem_cons_self v rfl) fun _ => head?_wordsText]
        rfl
    · have hne : letter ≠ w.1 := by
        rintro rfl
        exact hnodup.1 (List.mem_map.2 ⟨_, h, rfl⟩)
      have hskip := hletter.not_mem_wordText (hws w List.mem_cons_self) hne
      rw [wordsText, List.flatMap_cons, word?_append_of_not_mem hskip]
      exact ih hnodup.2 hws.tail h

end Words

/-- What a motion line begins with: a `G` or an `M` with digits, or nothing. -/
inductive IsMnemonic : List Char → Prop
  | bare : IsMnemonic []
  | code {c : Char} {ds : List Char} (hc : c = 'G' ∨ c = 'M') (hne : ds ≠ [])
      (hds : ∀ d ∈ ds, isDigit d = true) : IsMnemonic (c :: ds)

theorem isMnemonic_ofLine {α : Type} [Scalar α] (line : List Char) :
    IsMnemonic (ofLine line : Motion α).mnemonic.toList := by
  rw [ofLine, String.toList_ofList]
  cases line with
  | nil => exact .bare
  | cons c cs =>
    rw [mnemonic?]
    split
    · next h => exact .code h.1 h.2 fun d hd => List.mem_takeWhile_imp hd
    · exact .bare

theorem IsMnemonic.not_mem {cs : List Char} (h : IsMnemonic cs) (hG : letter ≠ 'G')
    (hM : letter ≠ 'M') (hdigit : isDigit letter = false) : letter ∉ cs := by
  cases h with
  | bare => exact List.not_mem_nil
  | code hc hne hds =>
    intro hmem
    rcases List.mem_cons.1 hmem with rfl | hmem
    · exact hc.elim hG hM
    · exact absurd (hds _ hmem) (by simp [hdigit])

/-! ### Motions -/

theorem toList_text (m : Motion Float) :
    m.text.toList = m.mnemonic.toList ++ wordsText m.words := by
  have happend : ∀ {a b c d : List Char}, a = b → c = d → a ++ c = b ++ d := by
    intro a b c d hab hcd
    rw [hab, hcd]
  simp only [text, String.toList_append, wordsText, words, List.flatMap_cons, List.flatMap_nil,
    List.append_nil, List.append_assoc]
  refine congrArg _ (happend ?_ (happend ?_ (happend ?_ (happend ?_ (happend ?_ ?_))))) <;>
    split <;> simp [wordText, *]

structure IsComplete (m : Motion Float) : Prop where
  areFinite : AreFinite m.words
  begins : m.mnemonic ≠ "" ∨ m.x.isSome ∨ m.y.isSome ∨ m.z.isSome

theorem IsComplete.exists_wordsText_eq_cons {m : Motion Float} (h : m.IsComplete)
    (hmnemonic : m.mnemonic = "") :
    ∃ c rest, wordsText m.words = ' ' :: c :: rest ∧ (c = 'X' ∨ c = 'Y' ∨ c = 'Z') := by
  have hbegins := h.begins.resolve_left (not_not.2 hmnemonic)
  rw [wordsText, words]
  cases hx : m.x with
  | some v => exact ⟨'X', _, rfl, .inl rfl⟩
  | none =>
    cases hy : m.y with
    | some v => exact ⟨'Y', _, rfl, .inr (.inl rfl)⟩
    | none =>
      cases hz : m.z with
      | some v => exact ⟨'Z', _, rfl, .inr (.inr rfl)⟩
      | none => simp [hx, hy, hz] at hbegins

theorem not_mem_text {m : Motion Float} (hfinite : AreFinite m.words)
    (hmnemonic : IsMnemonic m.mnemonic.toList) : '\n' ∉ m.text.toList := by
  have hletter : IsWordLetter '\n' := by decide
  rw [toList_text, List.mem_append, not_or]
  exact ⟨hmnemonic.not_mem (by decide) (by decide) hletter.2.2.2,
    hletter.not_mem_wordsText hfinite (by decide : '\n' ∉ ['X', 'Y', 'Z', 'I', 'J', 'F'])⟩

/-- A line with the mnemonic and the words of a motion is that motion. -/
theorem ofLine_eq {m : Motion Float} (hfinite : AreFinite m.words) {line : List Char}
    (hmnemonic : (mnemonic? line).getD [] = m.mnemonic.toList)
    (hwords : ∀ letter, IsWordLetter letter → letter ≠ 'G' → letter ≠ 'M' →
      word? letter line = word? letter (wordsText m.words)) :
    ofLine line = m := by
  have hnodup : (m.words.map Prod.fst).Nodup :=
    (by decide : ['X', 'Y', 'Z', 'I', 'J', 'F'].Nodup)
  have hword : ∀ letter value, (letter, value) ∈ m.words → IsWordLetter letter → letter ≠ 'G' →
      letter ≠ 'M' → (word letter line : Option Float) = value := by
    intro letter value hmem hletter hG hM
    rw [word, hwords letter hletter hG hM, word?_wordsText hnodup hfinite hmem hletter]
    cases hv : value with
    | none => rfl
    | some v => exact congrArg some (Decimal.lenientNumber_text (hfinite _ hmem v hv))
  have hx := hword 'X' m.x (by simp [words]) (by decide) (by decide) (by decide)
  have hy := hword 'Y' m.y (by simp [words]) (by decide) (by decide) (by decide)
  have hz := hword 'Z' m.z (by simp [words]) (by decide) (by decide) (by decide)
  have hi := hword 'I' m.i (by simp [words]) (by decide) (by decide) (by decide)
  have hj := hword 'J' m.j (by simp [words]) (by decide) (by decide) (by decide)
  have hf := hword 'F' m.f (by simp [words]) (by decide) (by decide) (by decide)
  rw [ofLine, hmnemonic, String.ofList_toList, hx, hy, hz, hi, hj, hf]

end Motion

def MacroCall.IsBare {α : Type} : MacroCall α → Prop
  | partProgram | pierce | startCut | partEnd | programEnd => True
  | _ => False

namespace Command

/-- The text of the command says all that there is to know about it. -/
def IsComplete : Command Float → Prop
  | comment _ => True
  | blockMarker _ => True
  | call c => c.IsBare
  | motion m => m.IsComplete

/-- What is known of a command that was read. The texts of comments and mnemonics are free in the
type of commands, not so on a line. -/
def IsRead {α : Type} : Command α → Prop
  | comment t => ∃ cs, '\n' ∉ cs ∧ t = String.ofList (trim cs)
  | motion m => Motion.IsMnemonic m.mnemonic.toList
  | _ => True

theorem isRead_of_mem_ofBody {α : Type} [Scalar α] {line : List Char} {c : Command α}
    (h : c ∈ ofBody line) : c.IsRead := by
  rw [ofBody] at h
  split at h
  · obtain ⟨call, -, rfl⟩ := List.mem_map.1 h
    trivial
  · split at h
    · rw [List.mem_singleton.1 h]
      exact Motion.isMnemonic_ofLine line
    · cases h

theorem not_mem_of_blockHead? {line number rest : List Char} {c : Char} (hc : c ∉ line)
    (h : blockHead? line = some (number, rest)) : c ∉ rest := by
  unfold blockHead? at h
  split at h
  · next cs =>
    simp only at h
    split at h
    · cases h
    · cases h
      exact fun hmem => hc (List.mem_cons_of_mem _ ((List.dropWhile_sublist isDigit).mem hmem))
  · cases h

theorem isRead_of_mem_ofLine {α : Type} [Scalar α] {line : List Char} {c : Command α}
    (hline : '\n' ∉ line) (h : c ∈ ofLine line) : c.IsRead := by
  induction line using ofLine.induct with
  | case1 text =>
    rw [ofLine_comment, List.mem_singleton] at h
    rw [h]
    exact ⟨text, fun hmem => hline (List.mem_cons_of_mem _ hmem), rfl⟩
  | case2 line hhead hnone =>
    rw [ofLine_of_blockHead?_eq_none (head?_ne_of_forall_ne hhead) hnone] at h
    exact isRead_of_mem_ofBody h
  | case3 line _ number rest hblock hrange =>
    rw [ofLine_of_uint32?_eq_none hblock hrange] at h
    cases h
  | case4 line _ number rest hblock n hn ih =>
    rw [ofLine_of_blockHead? hblock hn] at h
    rcases List.mem_cons.1 h with rfl | h
    · trivial
    · exact ih (fun hmem => not_mem_of_blockHead? hline hblock (mem_of_mem_trim hmem)) h

theorem isRead_of_mem_ofText {α : Type} [Scalar α] {text : String} {c : Command α}
    (h : c ∈ ofText text) : c.IsRead := by
  obtain ⟨line, hline, h⟩ := List.mem_flatMap.1 h
  exact isRead_of_mem_ofLine (fun hmem => not_mem_of_mem_pieces hline (mem_of_mem_trim hmem)) h

/-! ### One command -/

structure ReadsBack (c : Command Float) : Prop where
  not_mem : '\n' ∉ c.text.toList
  ofLine : ofLine (trim c.text.toList) = [c]

theorem readsBack_comment {cs : List Char} (hline : '\n' ∉ cs) :
    ReadsBack (comment (String.ofList (trim cs))) := by
  have htext : (text (comment (String.ofList (trim cs)))).toList = ';' :: trim cs := by
    simp [text]
  have htrim : trim (';' :: trim cs) = ';' :: trim cs := by
    refine trim_eq_self (fun c hc => ?_) fun c hc => ?_
    · cases hc
      rfl
    · rw [List.getLast?_cons] at hc
      cases hlast : (trim cs).getLast? with
      | none =>
        rw [hlast] at hc
        cases hc
        rfl
      | some d =>
        rw [hlast] at hc
        cases hc
        exact isBlank_of_getLast?_trim hlast
  constructor
  · rw [htext, List.mem_cons, not_or]
    exact ⟨by decide, fun hmem => hline (mem_of_mem_trim hmem)⟩
  · rw [htext, htrim, ofLine_comment, trim_trim]

theorem uint32?_digits (n : UInt32) : uint32? (Decimal.digits n.toNat) = some n := by
  have hascii : (Decimal.digits n.toNat).all isAsciiDigit = true :=
    List.all_eq_true.2 fun _ => Decimal.isAsciiDigit_of_mem_digits
  rw [uint32?, digitsValue_digits, if_pos ⟨Nat.toDigits_ne_nil, hascii, n.toNat_lt_size⟩,
    UInt32.ofNat_toNat]

theorem readsBack_blockMarker (n : UInt32) : ReadsBack (blockMarker n) := by
  have htext : (text (blockMarker n)).toList = 'N' :: Decimal.digits n.toNat := by
    simp [text, Decimal.digits, Nat.toList_repr]
  have hascii : ∀ c ∈ Decimal.digits n.toNat, isAsciiDigit c = true :=
    fun c hc => Decimal.isAsciiDigit_of_mem_digits hc
  have htrim : trim ('N' :: Decimal.digits n.toNat) = 'N' :: Decimal.digits n.toNat := by
    refine trim_of_forall fun c hc => ?_
    rcases List.mem_cons.1 hc with rfl | hc
    · rfl
    · exact isBlank_of_isAsciiDigit (hascii c hc)
  constructor
  · rw [htext, List.mem_cons, not_or]
    exact ⟨by decide, fun hmem => absurd (hascii _ hmem) (by decide)⟩
  · have hne : Decimal.digits n.toNat ≠ [] := Nat.toDigits_ne_nil
    rw [htext, htrim, ofLine_blockNumber hne hascii, uint32?_digits]
    rfl

theorem readsBack_call {c : MacroCall Float} (h : c.IsBare) : ReadsBack (call c) := by
  cases c <;> first | exact h.elim | exact ⟨by decide, (ofLine_call _).trans rfl⟩

/-- A line that begins with a mnemonic or with a word of the plane or the height is a motion. -/
theorem ofLine_motion {line : List Char}
    (hhead : ∀ c, line.head? = some c → c ≠ ';' ∧ c ≠ 'N' ∧ c ≠ 'H')
    (hline : (Motion.mnemonic? line).isSome = true ∨
      ∃ c, line.head? = some c ∧ (c = 'X' ∨ c = 'Y' ∨ c = 'Z')) :
    (ofLine line : List (Command Float)) = [motion (Motion.ofLine line)] := by
  cases line with
  | nil =>
    rcases hline with h | ⟨c, h, -⟩ <;> cases h
  | cons c cs =>
    obtain ⟨hcomment, hblock, hcall⟩ := hhead c rfl
    have hnone : blockHead? (c :: cs) = none := by
      unfold blockHead?
      split
      · next heq => exact absurd (List.cons.inj heq).1 hblock
      · rfl
    have hbegins : ((Motion.mnemonic? (c :: cs)).isSome ||
        (c :: cs).head?.any fun c => c == 'X' || c == 'Y' || c == 'Z') = true := by
      rcases hline with h | ⟨d, hd, h⟩
      · rw [h, Bool.true_or]
      · cases hd
        rcases h with rfl | rfl | rfl <;> exact Bool.or_true _
    rw [ofLine_of_blockHead?_eq_none (by simpa using hcomment) hnone, ofBody, if_neg ?_,
      if_pos hbegins]
    simp [List.isPrefixOf, Ne.symm hcall]

section Motions

variable {m : Motion Float} {c : Char}

theorem ofLine_motion_of_mnemonic (hm : m.IsComplete) {ds : List Char}
    (hmnemonic : m.mnemonic.toList = c :: ds) (hc : c = 'G' ∨ c = 'M') (hne : ds ≠ [])
    (hds : ∀ d ∈ ds, isDigit d = true) :
    (ofLine (trim m.text.toList) : List (Command Float)) = [motion m] := by
  have htext : m.text.toList = c :: ds ++ Motion.wordsText m.words := by
    rw [Motion.toList_text, hmnemonic]
  have htrim : trim m.text.toList = m.text.toList := by
    rw [htext]
    refine trim_eq_self (fun d hd => ?_) fun d hd => ?_
    · cases hd
      rcases hc with rfl | rfl <;> rfl
    · rw [List.getLast?_append, Option.or_eq_some_iff] at hd
      rcases hd with hd | ⟨-, hd⟩
      · exact Motion.isBlank_of_getLast?_wordsText hm.areFinite hd
      · rw [List.getLast?_cons_of_ne_nil hne] at hd
        exact isBlank_of_isDigit (hds d (List.mem_of_getLast? hd))
  have hread : Motion.mnemonic? m.text.toList = some (c :: ds) := by
    have hstop : ∀ d, (Motion.wordsText m.words).head? = some d → ¬isDigit d = true := by
      intro d hd
      rw [Motion.head?_wordsText hd]
      decide
    rw [htext, List.cons_append, Motion.mnemonic?, Json.takeWhile_append_of_head hstop,
      List.takeWhile_eq_self_iff.2 hds, if_pos ⟨hc, hne⟩]
  have hhead : ∀ d, m.text.toList.head? = some d → d ≠ ';' ∧ d ≠ 'N' ∧ d ≠ 'H' := by
    intro d hd
    rw [htext] at hd
    cases hd
    rcases hc with rfl | rfl <;> decide
  rw [htrim, ofLine_motion hhead (.inl (by rw [hread]; rfl)), Motion.ofLine_eq hm.areFinite]
  · rw [hread, hmnemonic]
    rfl
  · intro letter hletter hG hM
    rw [htext]
    exact Motion.word?_append_of_not_mem
      ((Motion.IsMnemonic.code hc hne hds).not_mem hG hM hletter.2.2.2) _

theorem ofLine_motion_of_bare (hm : m.IsComplete) (hmnemonic : m.mnemonic.toList = []) :
    (ofLine (trim m.text.toList) : List (Command Float)) = [motion m] := by
  obtain ⟨c, rest, hwords, hc⟩ := hm.exists_wordsText_eq_cons (String.toList_eq_nil_iff.1 hmnemonic)
  have htext : m.text.toList = ' ' :: c :: rest := by
    rw [Motion.toList_text, hmnemonic, hwords]
    rfl
  have htrim : trim m.text.toList = c :: rest := by
    rw [htext, trim, trimStart, List.dropWhile_cons_of_pos rfl, ← trimStart, ← trim]
    refine trim_eq_self (fun d hd => ?_) fun d hd => ?_
    · cases hd
      rcases hc with rfl | rfl | rfl <;> rfl
    · refine Motion.isBlank_of_getLast?_wordsText hm.areFinite ?_
      rwa [hwords, List.getLast?_cons_cons]
  rw [htrim, ofLine_motion ?_ (.inr ⟨c, rfl, hc⟩), Motion.ofLine_eq hm.areFinite]
  · rw [hmnemonic, Motion.mnemonic?, if_neg]
    · rfl
    · rcases hc with rfl | rfl | rfl <;> simp
  · intro letter hletter _ _
    rw [hwords]
    exact (if_neg (Ne.symm hletter.1)).symm
  · intro d hd
    cases hd
    rcases hc with rfl | rfl | rfl <;> decide

theorem readsBack_motion (hm : m.IsComplete) (hmnemonic : Motion.IsMnemonic m.mnemonic.toList) :
    ReadsBack (motion m) := by
  refine ⟨Motion.not_mem_text hm.areFinite hmnemonic, ?_⟩
  generalize hcs : m.mnemonic.toList = cs at hmnemonic
  cases hmnemonic with
  | bare => exact ofLine_motion_of_bare hm hcs
  | code hc hne hds => exact ofLine_motion_of_mnemonic hm hcs hc hne hds

end Motions

theorem IsComplete.readsBack {c : Command Float} (h : c.IsComplete) (hread : c.IsRead) :
    ReadsBack c := by
  cases c with
  | comment t =>
    obtain ⟨cs, hcs, rfl⟩ := hread
    exact readsBack_comment hcs
  | blockMarker n => exact readsBack_blockMarker n
  | call c => exact readsBack_call h
  | motion m => exact readsBack_motion h hread

/-! ### Programs -/

theorem ReadsBack.ofText {c : Command Float} (h : ReadsBack c) : ofText c.text = [c] := by
  rw [ofText_of_not_mem h.not_mem, h.ofLine]

theorem ofText_joinLines_text {cs : List (Command Float)} (h : ∀ c ∈ cs, ReadsBack c) :
    ofText (joinLines (cs.map fun c => c.text.toList)) = cs := by
  by_cases hcs : cs = []
  · rw [hcs]
    exact (ofText_of_not_mem List.not_mem_nil).trans ofLine_nil
  · have hlines : ∀ line ∈ cs.map fun c => c.text.toList, '\n' ∉ line := by
      intro line hline
      obtain ⟨c, hc, rfl⟩ := List.mem_map.1 hline
      exact (h c hc).not_mem
    have hone : cs.flatMap (fun c => ofLine (trim c.text.toList)) = cs.flatMap fun c => [c] :=
      List.flatMap_congr fun c hc => (h c hc).ofLine
    rw [ofText, joinLines, String.toList_ofList,
      pieces_intercalate (mt List.map_eq_nil_iff.1 hcs) hlines, List.flatMap_map, hone,
      List.flatMap_singleton']

/-- A complete command that was read is read back from its text, and a list of them from their
texts on one line each. -/
theorem ofText_text :
    (∀ (text : String) (c : Command Float), c ∈ ofText text → c.IsComplete →
      ofText c.text = [c]) ∧
    ∀ cs : List (Command Float), (∀ c ∈ cs, c.IsComplete ∧ ∃ text, c ∈ ofText text) →
      ofText (joinLines (cs.map fun c => c.text.toList)) = cs := by
  constructor
  · intro text c hmem hcomplete
    exact (hcomplete.readsBack (isRead_of_mem_ofText hmem)).ofText
  · intro cs hcs
    refine ofText_joinLines_text fun c hc => ?_
    obtain ⟨hcomplete, text, hmem⟩ := hcs c hc
    exact hcomplete.readsBack (isRead_of_mem_ofText hmem)

/-- A comment, a block number, a motion with a digit of another script in its mnemonic, bare
coordinates and a call. -/
def sheet : List (Command Float) :=
  [comment "sheet 3", blockMarker 17, motion ⟨"M\u0663", some (-1.5), none, none, none, none, none⟩,
    motion ⟨"", none, some 2, none, none, none, none⟩, call .startCut]

/-- A text of the sheet that is laid out in another way than the texts of its commands. -/
def sheetText : String := "; sheet 3 \nN017 M\u0663X-1.5\n Y 2 Y2\nHKCUT()"

theorem ofText_sheetText : ofText sheetText = sheet := by
  have hpieces : pieces '\n' sheetText.toList =
      ["; sheet 3 ".toList, "N017 M\u0663X-1.5".toList, " Y 2 Y2".toList, "HKCUT()".toList] := by
    decide
  have hcomment : (ofLine (trim "; sheet 3 ".toList) : List (Command Float)) =
      [comment "sheet 3"] := ofLine_comment _
  have hmotion : (ofLine (trim " M\u0663X-1.5".toList) : List (Command Float)) =
      [motion ⟨"M\u0663", some (-1.5), none, none, none, none, none⟩] :=
    ofLine_motion (by rintro _ ⟨⟩; decide) (.inl rfl)
  have hblock : (ofLine (trim "N017 M\u0663X-1.5".toList) : List (Command Float)) =
      [blockMarker 17, motion ⟨"M\u0663", some (-1.5), none, none, none, none, none⟩] :=
    (ofLine_of_blockHead? rfl rfl).trans (congrArg _ hmotion)
  have hbare : (ofLine (trim " Y 2 Y2".toList) : List (Command Float)) =
      [motion ⟨"", none, some 2, none, none, none, none⟩] :=
    ofLine_motion (by rintro _ ⟨⟩; decide) (.inr ⟨_, rfl, by decide⟩)
  have hcall : (ofLine (trim "HKCUT()".toList) : List (Command Float)) = [call .startCut] :=
    ofLine_call _
  rw [ofText, hpieces]
  simp only [List.flatMap_cons, List.flatMap_nil, hcomment, hblock, hbare, hcall]
  rfl

theorem ofText_text_sheet :
    (∀ c ∈ sheet, c.IsComplete) ∧ (∀ c ∈ sheet, ofText c.text = [c]) ∧
      ofText (joinLines (sheet.map fun c => c.text.toList)) = sheet := by
  have hfinite : ∀ v : Float, v = -1.5 ∨ v = 2 → v.isFinite = true := by
    rintro v (rfl | rfl) <;> rfl
  have hcomplete : ∀ c ∈ sheet, c.IsComplete := by
    simp only [sheet, List.forall_mem_cons]
    refine ⟨trivial, trivial, ⟨?_, .inl (by decide)⟩, ⟨?_, .inr (.inr (.inl rfl))⟩, trivial,
      List.forall_mem_nil _⟩
    · simp [Motion.AreFinite, Motion.words, hfinite]
    · simp [Motion.AreFinite, Motion.words, hfinite]
  have hmem : ∀ c ∈ sheet, c ∈ ofText sheetText := fun c hc => ofText_sheetText.symm ▸ hc
  exact ⟨hcomplete, fun c hc => ofText_text.1 sheetText c (hmem c hc) (hcomplete c hc),
    ofText_text.2 sheet fun c hc => ⟨hcomplete c hc, sheetText, hmem c hc⟩⟩

end Command

end SheetCut
