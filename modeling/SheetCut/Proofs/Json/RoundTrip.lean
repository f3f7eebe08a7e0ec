import SheetCut.Proofs.Json.Atoms

/-!
# Reading trees back

A printed tree is read as the same tree, compact as well as with a line to each member, if its
numbers are and its brackets do not stand too deep in each other.
-/

namespace SheetCut.Json

open Text

/-- The float is read back as it is written. -/
def ReadsBack (x : Float) : Prop :=
  readNumber? (numberLayout.text x).toList = some (number x, [])

mutual

/-- The tree is at most `n` brackets deep, its numbers are read back, and nothing in it is without a
value. -/
def Fits : Json → Nat → Prop
  | integer i, _ => Int64.minValue.toInt ≤ i ∧ i < UInt64.size
  | number x, _ => x.isFinite = true ∧ ReadsBack x
  | array items, n => 0 < n ∧ FitItems items (n - 1)
  | object members, n => 0 < n ∧ FitMembers members (n - 1)
  | unreadable, _ => False
  | _, _ => True

def FitItems : List Json → Nat → Prop
  | [], _ => True
  | item :: items, n => item.Fits n ∧ FitItems items n

def FitMembers : List (String × Json) → Nat → Prop
  | [], _ => True
  | m :: ms, n => m.2.Fits n ∧ FitMembers ms n

end

def gap (line : Option String) : List Char := (line.getD "").toList

def IsBlank (cs : List Char) : Prop := ∀ c ∈ cs, isSpace c = true

def indented (line : Option String) : Option String := line.map (· ++ "  ")

theorem isBlank_gap_indented {line : Option String} (h : IsBlank (gap line)) :
    IsBlank (gap (indented line)) := by
  cases line with
  | none => exact h
  | some s =>
    have hgap : gap (indented (some s)) = s.toList ++ [' ', ' '] := String.toList_append
    intro c hc
    rw [hgap, List.mem_append] at hc
    rcases hc with hc | hc
    · exact h c hc
    · have hc : c = ' ' := by simpa using hc
      rw [hc]
      rfl

theorem skipSpace_append {blanks : List Char} (h : IsBlank blanks) (cs : List Char) :
    skipSpace (blanks ++ cs) = skipSpace cs := List.dropWhile_append_of_pos h

theorem skipSpace_cons {c : Char} (h : isSpace c = false) (cs : List Char) :
    skipSpace (c :: cs) = c :: cs := List.dropWhile_cons_of_neg (by simp [h])

theorem readNumber?_eq_none {c : Char} (hminus : c ≠ '-') (hdigit : ¬isAsciiDigit c = true)
    (cs : List Char) : readNumber? (c :: cs) = none := by
  have hwhole : readWhole? (c :: cs) = none := by
    rw [readWhole?.eq_def]
    split
    · next heq =>
      cases heq
      exact absurd (by decide) hdigit
    · rw [List.takeWhile_cons_of_neg hdigit]
      rfl
  rw [readNumber?_of_ne hminus, readMagnitude?, hwhole]
  rfl

theorem readValue?_eq_readNumber? {c : Char} (hquote : c ≠ '"') (hbracket : c ≠ '[')
    (hbrace : c ≠ '\x7b') (hn : c ≠ 'n') (ht : c ≠ 't') (hf : c ≠ 'f') (depth fuel : Nat)
    (cs : List Char) : readValue? depth (fuel + 1) (c :: cs) = readNumber? (c :: cs) := by
  rw [readValue?]
  all_goals
    intro rest heq
    cases heq
    contradiction

/-- What reads as a number is a value. -/
theorem readValue?_of_readNumber? {cs : List Char} {r : Json × List Char}
    (h : readNumber? cs = some r) (depth fuel : Nat) : readValue? depth (fuel + 1) cs = some r := by
  cases cs with
  | nil => cases h
  | cons c cs =>
    have hne : ∀ d : Char, d ≠ '-' → ¬isAsciiDigit d = true → c ≠ d := by
      rintro d hminus hdigit rfl
      rw [readNumber?_eq_none hminus hdigit] at h
      cases h
    rw [readValue?_eq_readNumber? (hne _ (by decide) (by decide)) (hne _ (by decide) (by decide))
      (hne _ (by decide) (by decide)) (hne _ (by decide) (by decide))
      (hne _ (by decide) (by decide)) (hne _ (by decide) (by decide)), h]

/-- A value begins with no blank and with no closing bracket. -/
theorem head_of_readValue? {depth fuel : Nat} {cs : List Char} {r : Json × List Char}
    (h : readValue? depth fuel cs = some r) :
    ∃ c tail, cs = c :: tail ∧ isSpace c = false ∧ c ≠ ']' := by
  cases fuel with
  | zero => cases h
  | succ fuel =>
    cases cs with
    | nil => cases h
    | cons c cs =>
      have hnone : ∀ d ∈ [' ', '\n', '\t', '\r', ']'], c ≠ d := by
        have hapart : ∀ d ∈ [' ', '\n', '\t', '\r', ']'], d ≠ '"' ∧ d ≠ '[' ∧ d ≠ '\x7b' ∧ d ≠ 'n' ∧
            d ≠ 't' ∧ d ≠ 'f' ∧ d ≠ '-' ∧ ¬isAsciiDigit d = true := by simp [isAsciiDigit]
        rintro d hd rfl
        obtain ⟨hquote, hbracket, hbrace, hn, ht, hf, hminus, hdigit⟩ := hapart c hd
        rw [readValue?_eq_readNumber? hquote hbracket hbrace hn ht hf,
          readNumber?_eq_none hminus hdigit] at h
        cases h
      refine ⟨c, cs, rfl, ?_, hnone ']' (by simp)⟩
      simp [isSpace, hnone]

theorem head_of_readItems? {depth fuel : Nat} {cs : List Char} {r : List Json × List Char}
    (h : readItems? depth fuel cs = some r) :
    ∃ c tail, cs = c :: tail ∧ isSpace c = false ∧ c ≠ ']' := by
  cases fuel with
  | zero => cases h
  | succ fuel =>
    rw [readItems?] at h
    obtain ⟨item, hitem, -⟩ := Option.bind_eq_some_iff.1 h
    exact head_of_readValue? hitem

theorem endsNumber_cons {c : Char}
    (hc : ¬isAsciiDigit c = true ∧ c ≠ '.' ∧ c ≠ 'e' ∧ c ≠ 'E') (rest : List Char) :
    EndsNumber (c :: rest) := by
  intro d hd
  cases hd
  exact hc

theorem endsNumber_blank {blanks : List Char} (h : IsBlank blanks) {c : Char}
    (hc : ¬isAsciiDigit c = true ∧ c ≠ '.' ∧ c ≠ 'e' ∧ c ≠ 'E') (rest : List Char) :
    EndsNumber (blanks ++ c :: rest) := by
  cases blanks with
  | nil => exact endsNumber_cons hc rest
  | cons b blanks =>
    have hb : isSpace b = true := h b List.mem_cons_self
    have hcases : b = ' ' ∨ b = '\n' ∨ b = '\t' ∨ b = '\r' := by simpa [isSpace, or_assoc] using hb
    refine endsNumber_cons ?_ _
    rcases hcases with rfl | rfl | rfl | rfl <;> decide

theorem toList_quoted (s : String) :
    (quoted s).toList = '"' :: (s.toList.flatMap escape ++ ['"']) := String.toList_ofList

def itemsText (line : Option String) : List Json → List Char
  | [] => []
  | item :: items => (print line item).toList ++ (printItems line items).toList

def membersText (line : Option String) : List (String × Json) → List Char
  | [] => []
  | m :: ms =>
    '"' :: (m.1.toList.flatMap escape ++ '"' :: ((separator line).toList ++
      ((print line m.2).toList ++ (printMembers line ms).toList)))

theorem toList_print_array (line : Option String) (item : Json) (items : List Json) :
    (print line (array (item :: items))).toList =
      '[' :: (gap (indented line) ++ (itemsText (indented line) (item :: items) ++
        (gap line ++ [']']))) := by
  simp [print, itemsText, gap, indented, String.toList_append]

theorem separator_indented (line : Option String) : separator (indented line) = separator line := by
  cases line <;> rfl

theorem toList_print_object (line : Option String) (m : String × Json) (ms : List (String × Json)) :
    (print line (object (m :: ms))).toList =
      '\x7b' :: (gap (indented line) ++ (membersText (indented line) (m :: ms) ++
        (gap line ++ ['\x7d']))) := by
  rw [membersText, separator_indented]
  simp [print, gap, indented, String.toList_append, toList_quoted]

theorem toList_printItems_cons (line : Option String) (item : Json) (items : List Json) :
    (printItems line (item :: items)).toList =
      ',' :: (gap line ++ itemsText line (item :: items)) := by
  simp [printItems, itemsText, gap, String.toList_append]

theorem toList_printMembers_cons (line : Option String) (m : String × Json)
    (ms : List (String × Json)) :
    (printMembers line (m :: ms)).toList = ',' :: (gap line ++ membersText line (m :: ms)) := by
  simp [printMembers, membersText, gap, String.toList_append, toList_quoted]

theorem readValue?_array {depth fuel : Nat} {blanks cs : List Char} {items : List Json}
    {rest : List Char} (hblanks : IsBlank blanks)
    (h : readItems? (depth + 1) fuel cs = some (items, rest)) :
    readValue? depth (fuel + 1) ('[' :: (blanks ++ cs)) =
      some (nested depth (array items), rest) := by
  obtain ⟨c, tail, rfl, hspace, hbracket⟩ := head_of_readItems? h
  rw [readValue?, skipSpace_append hblanks, skipSpace_cons hspace]
  split
  · next heq =>
    cases heq
    exact absurd rfl hbracket
  · rw [h, Option.map_some]

theorem readValue?_object {depth fuel : Nat} {blanks cs : List Char}
    {members : List (String × Json)} {rest : List Char} (hblanks : IsBlank blanks)
    (hcs : cs.head? = some '"')
    (h : readMembers? (depth + 1) fuel cs = some (some members, rest)) :
    readValue? depth (fuel + 1) ('\x7b' :: (blanks ++ cs)) =
      some (nested depth (object members), rest) := by
  obtain ⟨tail, rfl⟩ := List.head?_eq_some_iff.1 hcs
  rw [readValue?, skipSpace_append hblanks, skipSpace_cons (by decide)]
  show (readMembers? (depth + 1) fuel ('"' :: tail)).map _ = _
  rw [h]
  rfl

theorem readItems?_last {depth fuel : Nat} {cs blanks rest : List Char} {item : Json}
    (hblanks : IsBlank blanks)
    (hitem : readValue? depth fuel cs = some (item, blanks ++ ']' :: rest)) :
    readItems? depth (fuel + 1) cs = some ([item], rest) := by
  rw [readItems?, hitem]
  simp only [Option.bind_eq_bind, Option.bind_some, skipSpace_append hblanks,
    skipSpace_cons (show isSpace ']' = false by decide)]
  rfl

theorem readItems?_cons {depth fuel : Nat} {cs blanks text rest : List Char} {item : Json}
    {items : List Json} (hblanks : IsBlank blanks)
    (hitem : readValue? depth fuel cs = some (item, ',' :: (blanks ++ text)))
    (hitems : readItems? depth fuel text = some (items, rest)) :
    readItems? depth (fuel + 1) cs = some (item :: items, rest) := by
  obtain ⟨c, tail, rfl, hspace, -⟩ := head_of_readItems? hitems
  rw [readItems?, hitem]
  simp only [Option.bind_eq_bind, Option.bind_some,
    skipSpace_cons (show isSpace ',' = false by decide), skipSpace_append hblanks,
    skipSpace_cons hspace, hitems]
  rfl

theorem exists_blanks_separator (line : Option String) :
    ∃ blanks, (separator line).toList = ':' :: blanks ∧ IsBlank blanks := by
  cases line with
  | none => exact ⟨[], rfl, fun c hc => absurd hc List.not_mem_nil⟩
  | some s => exact ⟨[' '], by simp [separator], fun c hc => by rw [List.mem_singleton.1 hc]; rfl⟩

section Members

variable {depth fuel : Nat} {name : String} {line : Option String} {cs blanks rest : List Char}
  {value : Json}

/-- Between a name and its value there is a colon with or without a blank. -/
theorem skipSpace_separator (line : Option String)
    (h : ∃ c tail, cs = c :: tail ∧ isSpace c = false ∧ c ≠ ']') :
    ∃ blanks, skipSpace ((separator line).toList ++ cs) = ':' :: (blanks ++ cs) ∧
      skipSpace (blanks ++ cs) = cs := by
  obtain ⟨blanks, hseparator, hblanks⟩ := exists_blanks_separator line
  obtain ⟨c, tail, rfl, hspace, -⟩ := h
  refine ⟨blanks, ?_, ?_⟩
  · rw [hseparator, List.cons_append, skipSpace_cons (by decide)]
  · rw [skipSpace_append hblanks, skipSpace_cons hspace]

theorem readMembers?_last (hblanks : IsBlank blanks)
    (hvalue : readValue? depth fuel cs = some (value, blanks ++ '\x7d' :: rest)) :
    readMembers? depth (fuel + 1) ('"' :: (name.toList.flatMap escape ++ '"' ::
      ((separator line).toList ++ cs))) = some (some [(name, value)], rest) := by
  obtain ⟨spaces, hseparator, hskip⟩ := skipSpace_separator line (head_of_readValue? hvalue)
  rw [readMembers?, readString?_quoted]
  simp only [Option.bind_eq_bind, Option.bind_some, hseparator, hskip, hvalue,
    skipSpace_append hblanks, skipSpace_cons (show isSpace '\x7d' = false by decide)]
  rfl

theorem readMembers?_cons {text : List Char} {members : List (String × Json)}
    (hblanks : IsBlank blanks) (htext : text.head? = some '"')
    (hvalue : readValue? depth fuel cs = some (value, ',' :: (blanks ++ text)))
    (hmembers : readMembers? depth fuel text = some (some members, rest)) :
    readMembers? depth (fuel + 1) ('"' :: (name.toList.flatMap escape ++ '"' ::
      ((separator line).toList ++ cs))) = some (some ((name, value) :: members), rest) := by
  obtain ⟨spaces, hseparator, hskip⟩ := skipSpace_separator line (head_of_readValue? hvalue)
  obtain ⟨tail, rfl⟩ := List.head?_eq_some_iff.1 htext
  rw [readMembers?, readString?_quoted]
  simp only [Option.bind_eq_bind, Option.bind_some, hseparator, hskip, hvalue,
    skipSpace_cons (show isSpace ',' = false by decide), skipSpace_append hblanks,
    skipSpace_cons (show isSpace '"' = false by decide), hmembers]
  rfl

end Members

theorem dropWord?_append (word rest : List Char) : dropWord? word (word ++ rest) = some rest := by
  induction word with
  | nil => rfl
  | cons c word ih => rw [List.cons_append, dropWord?, if_pos rfl, ih]

section Atoms

variable (depth fuel : Nat) (rest : List Char)

theorem readValue?_null :
    readValue? depth (fuel + 1) ("null".toList ++ rest) = some (null, rest) := by
  show readValue? depth (fuel + 1) ('n' :: ("ull".toList ++ rest)) = _
  rw [readValue?, dropWord?_append, Option.map_some]

theorem readValue?_bool (b : Bool) :
    readValue? depth (fuel + 1) ((atom (bool b)).toList ++ rest) = some (bool b, rest) := by
  cases b with
  | false =>
    show readValue? depth (fuel + 1) ('f' :: ("alse".toList ++ rest)) = _
    rw [readValue?, dropWord?_append, Option.map_some]
  | true =>
    show readValue? depth (fuel + 1) ('t' :: ("rue".toList ++ rest)) = _
    rw [readValue?, dropWord?_append, Option.map_some]

theorem readValue?_string (s : String) :
    readValue? depth (fuel + 1) ((quoted s).toList ++ rest) = some (string s, rest) := by
  rw [toList_quoted, List.cons_append, List.append_assoc, List.singleton_append, readValue?,
    readString?_quoted]
  rfl

theorem readValue?_brackets :
    readValue? depth (fuel + 1) ("[]".toList ++ rest) = some (nested depth (array []), rest) := by
  show readValue? depth (fuel + 1) ('[' :: ']' :: rest) = _
  rw [readValue?, skipSpace_cons (by decide)]
  rfl

theorem readValue?_braces :
    readValue? depth (fuel + 1) ("\x7b\x7d".toList ++ rest) =
      some (nested depth (object []), rest) := by
  show readValue? depth (fuel + 1) ('\x7b' :: '\x7d' :: rest) = _
  rw [readValue?, skipSpace_cons (by decide)]
  rfl

end Atoms

theorem nested_of_lt {depth : Nat} (h : depth < maxDepth) (j : Json) : nested depth j = j :=
  if_pos h

theorem head?_membersText (line : Option String) (m : String × Json) (ms : List (String × Json))
    (cs : List Char) : (membersText line (m :: ms) ++ cs).head? = some '"' := rfl

mutual

/-- A printed tree is read back. Each character of its text leaves fuel for a value and for the list
that the value stands in. -/
theorem readValue?_print (j : Json) {line : Option String} (hline : IsBlank (gap line))
    {depth n : Nat} (hfits : j.Fits n) (hdepth : depth + n ≤ maxDepth) (fuel : Nat)
    (hfuel : 2 * (print line j).toList.length + 1 ≤ fuel) (rest : List Char)
    (hrest : EndsNumber rest) :
    readValue? depth fuel ((print line j).toList ++ rest) = some (j, rest) := by
  obtain ⟨fuel, rfl⟩ : ∃ m, fuel = m + 1 := ⟨fuel - 1, by omega⟩
  cases j with
  | null => exact readValue?_null depth fuel rest
  | bool b => exact readValue?_bool depth fuel rest b
  | integer i =>
    exact readValue?_of_readNumber?
      (readNumber?_append hrest (readNumber?_integer hfits.1 hfits.2)) depth fuel
  | number x =>
    have htext : print line (number x) = numberLayout.text x := if_pos hfits.1
    rw [htext]
    exact readValue?_of_readNumber? (readNumber?_append hrest hfits.2) depth fuel
  | string s => exact readValue?_string depth fuel rest s
  | array items =>
    have hpos : 0 < n := hfits.1
    have hnested := nested_of_lt (show depth < maxDepth by omega) (array items)
    cases items with
    | nil =>
      exact (readValue?_brackets depth fuel rest).trans (by rw [hnested])
    | cons item items =>
      rw [toList_print_array] at hfuel ⊢
      simp only [List.length_cons, List.length_append] at hfuel
      have hitems := readItems?_print item items (isBlank_gap_indented hline) hfits.2
        (show depth + 1 + (n - 1) ≤ maxDepth by omega) fuel (by omega) hline rest
      simp only [List.cons_append, List.append_assoc, List.nil_append]
      rw [readValue?_array (isBlank_gap_indented hline) hitems, hnested]
  | object members =>
    have hpos : 0 < n := hfits.1
    have hnested := nested_of_lt (show depth < maxDepth by omega) (object members)
    cases members with
    | nil =>
      exact (readValue?_braces depth fuel rest).trans (by rw [hnested])
    | cons m ms =>
      rw [toList_print_object] at hfuel ⊢
      simp only [List.length_cons, List.length_append] at hfuel
      have hmembers := readMembers?_print m ms (isBlank_gap_indented hline) hfits.2
        (show depth + 1 + (n - 1) ≤ maxDepth by omega) fuel (by omega) hline rest
      simp only [List.cons_append, List.append_assoc, List.nil_append]
      rw [readValue?_object (isBlank_gap_indented hline) (head?_membersText ..) hmembers, hnested]
  | unreadable => exact hfits.elim
termination_by sizeOf j

theorem readItems?_print (item : Json) (items : List Json) {line : Option String}
    (hline : IsBlank (gap line)) {depth n : Nat} (hfits : FitItems (item :: items) n)
    (hdepth : depth + n ≤ maxDepth) (fuel : Nat)
    (hfuel : 2 * (itemsText line (item :: items)).length + 2 ≤ fuel) {blanks : List Char}
    (hblanks : IsBlank blanks) (rest : List Char) :
    readItems? depth fuel (itemsText line (item :: items) ++ (blanks ++ ']' :: rest)) =
      some (item :: items, rest) := by
  obtain ⟨fuel, rfl⟩ : ∃ m, fuel = m + 1 := ⟨fuel - 1, by omega⟩
  rw [itemsText, List.append_assoc] at *
  rw [List.length_append] at hfuel
  have hitem := readValue?_print item hline hfits.1 hdepth fuel (by omega)
  cases items with
  | nil =>
    exact readItems?_last hblanks (hitem _ (endsNumber_blank hblanks (by decide) rest))
  | cons next items =>
    rw [toList_printItems_cons] at hfuel ⊢
    rw [List.length_cons, List.length_append] at hfuel
    have hitems := readItems?_print next items hline hfits.2 hdepth fuel (by omega) hblanks rest
    rw [List.cons_append, List.append_assoc]
    exact readItems?_cons hline (hitem _ (endsNumber_cons (by decide) _)) hitems
termination_by sizeOf (item :: items)

theorem readMembers?_print (m : String × Json) (ms : List (String × Json)) {line : Option String}
    (hline : IsBlank (gap line)) {depth n : Nat} (hfits : FitMembers (m :: ms) n)
    (hdepth : depth + n ≤ maxDepth) (fuel : Nat)
    (hfuel : 2 * (membersText line (m :: ms)).length + 2 ≤ fuel) {blanks : List Char}
    (hblanks : IsBlank blanks) (rest : List Char) :
    readMembers? depth fuel (membersText line (m :: ms) ++ (blanks ++ '\x7d' :: rest)) =
      some (some (m :: ms), rest) := by
  obtain ⟨fuel, rfl⟩ : ∃ m, fuel = m + 1 := ⟨fuel - 1, by omega⟩
  rw [membersText] at *
  simp only [List.length_cons, List.length_append] at hfuel
  simp only [List.cons_append, List.append_assoc]
  have hsize : sizeOf m.2 < sizeOf m := by cases m; simp +arith
  have hvalue := readValue?_print m.2 hline hfits.1 hdepth fuel (by omega)
  cases ms with
  | nil =>
    exact readMembers?_last hblanks (hvalue _ (endsNumber_blank hblanks (by decide) rest))
  | cons next ms =>
    rw [toList_printMembers_cons] at hfuel ⊢
    rw [List.length_cons, List.length_append] at hfuel
    have hmembers := readMembers?_print next ms hline hfits.2 hdepth fuel (by omega) hblanks rest
    rw [List.cons_append, List.append_assoc]
    exact readMembers?_cons hline (head?_membersText ..)
      (hvalue _ (endsNumber_cons (by decide) _)) hmembers
termination_by sizeOf (m :: ms)

end

/-- A whole text is read as the tree that it was printed from. -/
theorem ofText?_print {j : Json} {line : Option String} (hline : IsBlank (gap line))
    (hfits : j.Fits maxDepth) : ofText? (print line j) = some j := by
  have hread := readValue?_print j hline hfits (by omega : 0 + maxDepth ≤ maxDepth)
    (2 * (print line j).toList.length + 2) (by omega) [] (fun c hc => by cases hc)
  rw [List.append_nil] at hread
  obtain ⟨c, tail, htext, hspace, -⟩ := head_of_readValue? hread
  have hskip : skipSpace (print line j).toList = (print line j).toList := by
    rw [htext, skipSpace_cons hspace]
  rw [ofText?, hskip, hread]
  rfl

end SheetCut.Json
