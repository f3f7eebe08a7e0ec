import SheetCut.Proofs.Binary64.Arithmetic
import SheetCut.Proofs.Json.Atoms
import SheetCut.Proofs.Toml.Quoted
import SheetCut.Settings.Form
import SheetCut.Toml.Reader

/-!
# Reading documents back

A document of headers and of pairs is read line by line. Each line that is written gives its
statement, if its key is a bare one and its value is read back.
-/

namespace SheetCut.Toml

open Text

section

variable {p : Char → Bool} {cs rest : List Char}

theorem takeWhile_all (hcs : ∀ c ∈ cs, p c = true)
    (hrest : ∀ c, rest.head? = some c → ¬p c = true) : (cs ++ rest).takeWhile p = cs := by
  rw [Json.takeWhile_append_of_head hrest, List.takeWhile_eq_self_iff.2 hcs]

theorem dropWhile_all (hcs : ∀ c ∈ cs, p c = true)
    (hrest : ∀ c, rest.head? = some c → ¬p c = true) : (cs ++ rest).dropWhile p = rest := by
  rw [Json.dropWhile_append_of_head hrest, List.dropWhile_eq_nil_iff.2 hcs, List.nil_append]

end

def IsBare (name : String) : Prop := name.toList ≠ [] ∧ ∀ c ∈ name.toList, isBareKeyChar c = true

instance (name : String) : Decidable (IsBare name) :=
  decidable_of_iff ((name.toList != [] && name.toList.all isBareKeyChar) = true) (by
    rw [Bool.and_eq_true, List.all_eq_true, bne_iff_ne, IsBare])

theorem ne_of_isBareKeyChar {c d : Char} (hc : isBareKeyChar c = true)
    (hd : isBareKeyChar d = false) : c ≠ d := by
  rintro rfl
  rw [hc] at hd
  cases hd

theorem skipSpace_cons {c : Char} (hc : isSpace c = false) (cs : List Char) :
    skipSpace (c :: cs) = c :: cs :=
  List.dropWhile_cons_of_neg (by simp [hc])

theorem IsBare.exists_cons {name : String} (h : IsBare name) :
    ∃ c cs, name.toList = c :: cs ∧ isBareKeyChar c = true := by
  cases hname : name.toList with
  | nil => exact absurd hname h.1
  | cons c cs => exact ⟨c, cs, rfl, h.2 c (hname ▸ List.mem_cons_self)⟩

theorem isSpace_of_isBareKeyChar {c : Char} (h : isBareKeyChar c = true) : isSpace c = false := by
  simp only [isSpace, Bool.or_eq_false_iff, beq_eq_false_iff_ne]
  exact ⟨ne_of_isBareKeyChar h rfl, ne_of_isBareKeyChar h rfl⟩

/-- A bare key is read up to what cannot go on with it. -/
theorem readKey?_bare {name : String} (h : IsBare name) {rest : List Char}
    (hrest : ∀ c, rest.head? = some c → ¬isBareKeyChar c = true)
    (hdot : (skipSpace rest).head? ≠ some '.') :
    readKey? (name.toList ++ rest) = some ([name], skipSpace rest) := by
  obtain ⟨c, cs, hname, hc⟩ := h.exists_cons
  have hplain : readPlain? (name.toList ++ rest) = none := by
    rw [hname, List.cons_append, readPlain?, if_neg (ne_of_isBareKeyChar hc rfl),
      if_neg (ne_of_isBareKeyChar hc rfl)]
  have hpart : readKeyPart? (name.toList ++ rest) = some (name, rest) := by
    rw [readKeyPart?, hplain]
    simp only [takeWhile_all h.2 hrest, dropWhile_all h.2 hrest]
    rw [if_neg h.1, String.ofList_toList]
  have hskip : skipSpace (name.toList ++ rest) = name.toList ++ rest := by
    rw [hname, List.cons_append, skipSpace_cons (isSpace_of_isBareKeyChar hc)]
  have hparts : readParts? (name.toList ++ rest) = some ([name], skipSpace rest) := by
    rw [readParts?.eq_def, hskip, hpart]
    split
    · next h => cases h
    · next h =>
      cases h
      split
      · next heq =>
        rw [heq] at hdot
        exact absurd rfl hdot
      · rfl
  rw [readKey?, hparts]
  rfl

/-- The text of a value, which is read back before a line end. -/
structure WritesValue (text : List Char) (v : Toml) : Prop where
  isSpace_head : ∀ c, text.head? = some c → isSpace c = false
  ne_nil : text ≠ []
  readValue? : ∀ rest, readValue? (nestingLimit - 1) (text ++ '\n' :: rest) = some (v, '\n' :: rest)

theorem readValue?_eq_readAtom? {c : Char} (hbracket : c ≠ '[') (hbrace : c ≠ '\x7b') (depth : Nat)
    (cs : List Char) : readValue? depth (c :: cs) = readAtom? (c :: cs) := by
  cases depth with
  | zero => rfl
  | succ depth =>
    rw [Toml.readValue?.eq_def]
    split
    · next heq => cases heq
    · next heq =>
      cases heq
      split
      · next heq =>
        cases heq
        exact absurd rfl hbracket
      · next heq =>
        cases heq
        exact absurd rfl hbrace
      · rfl

theorem writesValue_string (s : String) : WritesValue (quoted s).toList (string s) := by
  have hhead : (quoted s).toList.head? = some quote ∨
      (quoted s).toList.head? = some apostrophe := by
    rw [quoted, String.toList_ofList]
    exact head?_write _ _
  cases htext : (quoted s).toList with
  | nil =>
    rw [htext] at hhead
    rcases hhead with h | h <;> cases h
  | cons c cs =>
    rw [htext] at hhead
    have hc : c = quote ∨ c = apostrophe := hhead.imp Option.some.inj Option.some.inj
    refine ⟨fun d hd => ?_, List.cons_ne_nil c cs, fun rest => ?_⟩
    · cases hd
      rcases hc with rfl | rfl <;> rfl
    · have hread : readString? ((quoted s).toList ++ '\n' :: rest) =
          some (s.toList, '\n' :: rest) :=
        readString?_quoted (by simp [quote]) (by simp [apostrophe]) s
      rw [htext] at hread
      rw [List.cons_append, readValue?_eq_readAtom? (by rcases hc with rfl | rfl <;> decide)
        (by rcases hc with rfl | rfl <;> decide), readAtom?, if_pos (by simpa using hc)]
      rw [List.cons_append] at hread
      rw [hread, Option.map_some, String.ofList_toList]

theorem ne_of_isWordChar {c d : Char} (hc : isWordChar c = true) (hd : isWordChar d = false) :
    c ≠ d := by
  rintro rfl
  rw [hc] at hd
  cases hd

/-- A word is read up to the line end, and has the value that it has as a whole. -/
theorem writesValue_word {w : List Char} {v : Toml} (hne : w ≠ [])
    (hw : ∀ c ∈ w, isWordChar c = true) (hv : ofWord? w = some v) : WritesValue w v := by
  cases w with
  | nil => contradiction
  | cons c cs =>
    have hc : isWordChar c = true := hw c List.mem_cons_self
    refine ⟨fun d hd => ?_, hne, fun rest => ?_⟩
    · cases hd
      simp only [isSpace, Bool.or_eq_false_iff, beq_eq_false_iff_ne]
      exact ⟨ne_of_isWordChar hc rfl, ne_of_isWordChar hc rfl⟩
    · have hrest : ∀ d, ('\n' :: rest).head? = some d → ¬isWordChar d = true := by
        intro d hd
        cases hd
        decide
      have hword : takeWord (c :: cs ++ '\n' :: rest) = (c :: cs, '\n' :: rest) := by
        rw [takeWord]
        simp only [takeWhile_all hw hrest, dropWhile_all hw hrest]
        rfl
      have hquotes : ¬((c :: cs ++ '\n' :: rest).head? = some quote ∨
          (c :: cs ++ '\n' :: rest).head? = some apostrophe) := by
        rintro (h | h)
        · exact ne_of_isWordChar hc rfl (Option.some.inj h)
        · exact ne_of_isWordChar hc rfl (Option.some.inj h)
      rw [List.cons_append, readValue?_eq_readAtom? (ne_of_isWordChar hc rfl)
        (ne_of_isWordChar hc rfl), ← List.cons_append, readAtom?, if_neg hquotes, hword, hv]
      rfl

theorem writesValue_bool (b : Bool) : WritesValue (boolText b).toList (bool b) := by
  cases b <;> exact writesValue_word (by decide) (List.all_eq_true.1 rfl) rfl

def ReadsBack (x : Float) : Prop := ofWord? (floatLayout.text x).toList = some (float x)

theorem isWordChar_of_mem_digits {n : Nat} {c : Char} (h : c ∈ Decimal.digits n) :
    isWordChar c = true := by
  have hdigit := Nat.isDigit_of_mem_toDigits (by decide) (Nat.le_refl 10) h
  simp [isWordChar, Char.isAlphanum, hdigit]

theorem isWordChar_of_mem_positionalDigits {wholePoint : Bool} {n : Nat} {d : Int} {c : Char}
    (h : c ∈ Decimal.positionalDigits wholePoint n d) : isWordChar c = true := by
  have hzeros : ∀ k, c ∈ Decimal.zeros k → isWordChar c = true := by
    intro k hc
    rw [List.eq_of_mem_replicate hc]
    rfl
  have hpoint : c ∈ ['.', '0'] → isWordChar c = true := by
    intro hc
    rcases List.mem_pair.1 hc with rfl | rfl <;> rfl
  rw [Decimal.positionalDigits] at h
  split_ifs at h
  · rcases List.mem_append.1 h with h | h
    · rcases List.mem_append.1 h with h | h
      · exact isWordChar_of_mem_digits h
      · exact hzeros _ h
    · exact hpoint h
  · rcases List.mem_append.1 h with h | h
    · rcases List.mem_append.1 h with h | h
      · exact isWordChar_of_mem_digits h
      · exact hzeros _ h
    · cases h
  · rcases List.mem_append.1 h with h | h
    · exact isWordChar_of_mem_digits (List.mem_of_mem_take h)
    · rcases List.mem_cons.1 h with rfl | h
      · rfl
      · exact isWordChar_of_mem_digits (List.mem_of_mem_drop h)
  · rcases List.mem_cons.1 h with rfl | h
    · rfl
    · rcases List.mem_cons.1 h with rfl | h
      · rfl
      · rcases List.mem_append.1 h with h | h
        · exact hzeros _ h
        · exact isWordChar_of_mem_digits h

theorem positionalDigits_ne_nil (n : Nat) (d : Int) : Decimal.positionalDigits true n d ≠ [] := by
  rw [Decimal.positionalDigits]
  split_ifs <;> simp_all

/-- The text of a finite float is a word. -/
theorem exists_word_of_isFinite {x : Float} (h : x.isFinite = true) :
    (floatLayout.text x).toList ≠ [] ∧
      ∀ c ∈ (floatLayout.text x).toList, isWordChar c = true := by
  rw [Decimal.Layout.text]
  rcases Binary64.isFinite_iff.1 h with ⟨s, hs⟩ | ⟨s, m, e, hpos, hs⟩
  · rw [hs]
    cases s <;> exact ⟨by decide, List.all_eq_true.1 rfl⟩
  · simp only [hs]
    have htext : (floatLayout.finiteText m e).toList = Decimal.positionalDigits true
        (Decimal.shortest .up m e).1 (Decimal.shortest .up m e).2 := String.toList_ofList ..
    have hword : ∀ c ∈ (floatLayout.finiteText m e).toList, isWordChar c = true := by
      intro c hc
      rw [htext] at hc
      exact isWordChar_of_mem_positionalDigits hc
    rw [String.toList_append]
    refine ⟨?_, fun c hc => ?_⟩
    · rw [htext]
      exact List.append_ne_nil_of_right_ne_nil _ (positionalDigits_ne_nil _ _)
    · rcases List.mem_append.1 hc with hc | hc
      · cases s with
        | positive => cases hc
        | negative =>
          rw [List.mem_singleton.1 hc]
          rfl
      · exact hword c hc

theorem writesValue_float {x : Float} (h : x.isFinite = true) (hread : ReadsBack x) :
    WritesValue (floatLayout.text x).toList (float x) := by
  obtain ⟨hne, hword⟩ := exists_word_of_isFinite h
  exact writesValue_word hne hword hread

structure WritesStatement (text : List Char) (s : Statement) : Prop where
  exists_cons : ∃ c cs, text = c :: cs ∧ isSpace c = false ∧ c ≠ '\n' ∧ c ≠ '#'
  readStatement? : ∀ rest, readStatement? (text ++ '\n' :: rest) = some (s, '\n' :: rest)

theorem writesStatement_header {name : String} (h : IsBare name) :
    WritesStatement ('[' :: (name.toList ++ [']'])) (.header [name]) := by
  refine ⟨⟨_, _, rfl, rfl, by decide, by decide⟩, fun rest => ?_⟩
  obtain ⟨c, cs, hname, hc⟩ := h.exists_cons
  have hkey : readKey? (name.toList ++ ']' :: '\n' :: rest) =
      some ([name], ']' :: '\n' :: rest) := by
    refine readKey?_bare h (fun d hd => ?_) (by simp [skipSpace, isSpace])
    cases hd
    decide
  have htext : '[' :: (name.toList ++ [']']) ++ '\n' :: rest =
      '[' :: (name.toList ++ ']' :: '\n' :: rest) := by simp
  rw [htext, Toml.readStatement?.eq_def]
  split
  · next heq =>
    rw [hname, List.cons_append] at heq
    exact absurd (List.cons.inj (List.cons.inj heq).2).1 (ne_of_isBareKeyChar hc rfl)
  · next heq =>
    cases heq
    rw [hkey]
    rfl
  · next hne => exact absurd rfl (hne _)

theorem writesStatement_pair {name : String} (h : IsBare name) {text : List Char} {v : Toml}
    (hv : WritesValue text v) :
    WritesStatement (name.toList ++ ' ' :: '=' :: ' ' :: text) (.pair [name] v) := by
  obtain ⟨c, cs, hname, hc⟩ := h.exists_cons
  refine ⟨⟨c, _, by rw [hname]; rfl, isSpace_of_isBareKeyChar hc, ne_of_isBareKeyChar hc rfl,
    ne_of_isBareKeyChar hc rfl⟩, fun rest => ?_⟩
  have hkey : readKey? (name.toList ++ ' ' :: '=' :: ' ' :: (text ++ '\n' :: rest)) =
      some ([name], '=' :: ' ' :: (text ++ '\n' :: rest)) := by
    refine readKey?_bare h (fun d hd => ?_) (by simp [skipSpace, isSpace])
    cases hd
    decide
  have hskip : skipSpace (' ' :: (text ++ '\n' :: rest)) = text ++ '\n' :: rest := by
    cases text with
    | nil => exact absurd rfl hv.ne_nil
    | cons d ds => exact skipSpace_cons (hv.isSpace_head d rfl) _
  have htext : name.toList ++ ' ' :: '=' :: ' ' :: text ++ '\n' :: rest =
      name.toList ++ ' ' :: '=' :: ' ' :: (text ++ '\n' :: rest) := by simp
  rw [htext, Toml.readStatement?.eq_def]
  split
  · next heq =>
    rw [hname, List.cons_append] at heq
    exact absurd (List.cons.inj heq).1 (ne_of_isBareKeyChar hc rfl)
  · next heq =>
    rw [hname, List.cons_append] at heq
    exact absurd (List.cons.inj heq).1 (ne_of_isBareKeyChar hc rfl)
  · rw [readPair?, hkey]
    simp only [hskip, hv.readValue? rest, Option.map_some]

theorem readStatements?_blank (rest : List Char) :
    readStatements? ('\n' :: rest) = readStatements? rest := by
  have hend : lineEnd? ('\n' :: rest) = some rest := rfl
  rw [readStatements?.eq_def, if_neg (List.cons_ne_nil _ _), hend]
  exact if_pos (Nat.lt_succ_self _)

/-- A line with a statement comes first. -/
theorem readStatements?_line {text : List Char} {s : Statement} (h : WritesStatement text s)
    (rest : List Char) :
    readStatements? (text ++ '\n' :: rest) = (readStatements? rest).map (s :: ·) := by
  obtain ⟨c, cs, rfl, hspace, hline, hcomment⟩ := h.exists_cons
  have hskip : skipSpace (c :: cs ++ '\n' :: rest) = c :: cs ++ '\n' :: rest :=
    skipSpace_cons hspace _
  have hnone : lineEnd? (c :: cs ++ '\n' :: rest) = none := by
    have hcontent : skipComment (c :: cs ++ '\n' :: rest) = c :: cs ++ '\n' :: rest := by
      rw [skipComment.eq_def]
      split
      · next heq => exact absurd (List.cons.inj heq).1 hcomment
      · rfl
    rw [lineEnd?, hskip, hcontent]
    split
    · next heq => cases heq
    · next heq => exact absurd (List.cons.inj heq).1 hline
    · rfl
  have hend : lineEnd? ('\n' :: rest) = some rest := rfl
  have hne : c :: cs ++ '\n' :: rest ≠ [] := List.cons_ne_nil _ _
  rw [readStatements?.eq_def, if_neg hne, hnone]
  simp only [hskip, h.readStatement? rest, hend]
  exact if_pos (by simp; omega)

theorem joinLineEnds_of_not_mem {cs : List Char} (h : '\r' ∉ cs) : joinLineEnds cs = cs := by
  induction cs with
  | nil => rfl
  | cons c cs ih =>
    rw [List.mem_cons, not_or] at h
    rw [joinLineEnds.eq_def]
    split
    · next heq => exact absurd (List.cons.inj heq).1.symm h.1
    · next heq =>
      cases heq
      rw [ih h.2]
    · next heq => cases heq

/-- A key with the text of its value and the value. -/
structure Row where
  key : String
  text : String
  value : Toml

namespace Row

def line (r : Row) : List Char := r.key.toList ++ ' ' :: '=' :: ' ' :: r.text.toList

def IsRead (r : Row) : Prop := IsBare r.key ∧ WritesValue r.text.toList r.value

end Row

theorem toList_sectionText (name : String) (rows : List Row) :
    (sectionText name (rows.map fun r => (r.key, r.text))).toList =
      '[' :: (name.toList ++ [']']) ++ '\n' :: rows.flatMap fun r => r.line ++ ['\n'] := by
  simp [sectionText, Row.line, List.flatMap_def, Function.comp_def]

theorem readStatements?_rows {rows : List Row} (h : ∀ r ∈ rows, r.IsRead) (rest : List Char) :
    readStatements? (rows.flatMap (fun r => r.line ++ ['\n']) ++ rest) =
      (readStatements? rest).map (rows.map (fun r => .pair [r.key] r.value) ++ ·) := by
  induction rows with
  | nil => simp
  | cons r rows ih =>
    obtain ⟨⟨hbare, hvalue⟩, h⟩ := List.forall_mem_cons.1 h
    have hline := readStatements?_line (writesStatement_pair hbare hvalue)
    rw [List.flatMap_cons, List.append_assoc, List.append_assoc, List.singleton_append, Row.line,
      hline, ih h, Option.map_map]
    rfl

/-- The lines of a section are read as its statements. -/
theorem readStatements?_section {name : String} (hname : IsBare name) {rows : List Row}
    (h : ∀ r ∈ rows, r.IsRead) (rest : List Char) :
    readStatements? ((sectionText name (rows.map fun r => (r.key, r.text))).toList ++ rest) =
      (readStatements? rest).map
        ((.header [name] :: rows.map fun r => .pair [r.key] r.value) ++ ·) := by
  have htext : (sectionText name (rows.map fun r => (r.key, r.text))).toList ++ rest =
      '[' :: (name.toList ++ [']']) ++
        '\n' :: (rows.flatMap (fun r => r.line ++ ['\n']) ++ rest) := by
    rw [toList_sectionText]
    simp
  rw [htext, readStatements?_line (writesStatement_header hname), readStatements?_rows h,
    Option.map_map]
  rfl

/-- The entries of a table are found under their keys. -/
theorem fields?_table {entries : Entries} (h : (entries.map Prod.fst).Nodup)
    (origin : TableOrigin) : (table origin entries).fields? (entries.map Prod.fst) =
      some (entries.map fun e => some e.2) := by
  rw [fields?, List.map_map]
  refine congrArg some (List.map_congr_left fun e he => ?_)
  show entries.lookup e.1 = some e.2
  induction entries with
  | nil => cases he
  | cons d entries ih =>
    obtain ⟨hd, h⟩ := List.nodup_cons.1 h
    rw [List.lookup_cons]
    rcases List.mem_cons.1 he with rfl | he
    · rw [beq_self_eq_true]
    · have hne : e.1 ≠ d.1 := fun heq => hd (heq ▸ List.mem_map_of_mem he)
      rw [beq_eq_false_iff_ne.2 hne]
      exact ih h he

end SheetCut.Toml
