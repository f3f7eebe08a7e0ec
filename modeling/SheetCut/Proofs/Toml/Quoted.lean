import Mathlib.Data.List.TakeWhile
import SheetCut.Toml.Quoted

/-!
# Reading quoted strings back

Every string is read back from the form in which it is written, whatever follows that is no quote.
In the forms for several lines the quotes of the content are told from the closing ones by their
number: at most two of the former stand in a row.
-/

namespace SheetCut.Toml

open Text

theorem hexNumber?_ascii : ∀ n < 128,
    hexNumber? ['0', '0', hexDigit (n / 16), hexDigit (n % 16)] = some n := by
  decide

theorem readEscape?_hex {c : Char} (hc : c.toNat < 128) (rest : List Char) :
    readEscape? ('u' :: '0' :: '0' :: hexDigit (c.toNat / 16) :: hexDigit (c.toNat % 16) :: rest) =
      some (c, rest) := by
  have hvalid : c.toNat.isValidChar := .inl (by omega)
  have hsize : ¬escapeSize 'u' = 0 := by decide
  have hlength : ¬('0' :: '0' :: hexDigit (c.toNat / 16) :: hexDigit (c.toNat % 16) ::
      rest).length < escapeSize 'u' := by
    show ¬_ < 4
    simp
  rw [readEscape?]
  simp only [if_neg hsize, if_neg hlength]
  show ((hexNumber? ['0', '0', hexDigit (c.toNat / 16), hexDigit (c.toNat % 16)]).bind
    character?).map (·, rest) = _
  rw [hexNumber?_ascii _ hc, Option.bind_some, character?, if_pos hvalid, Char.ofNat_toNat]
  rfl

/-- The escape of a character is read back. What stands behind its backslash is no blank and no line
end, so it does not join lines. -/
theorem exists_escape {c : Char} (hc : c.toNat < 128) : ∃ d e, escape c = backslash :: d :: e ∧
    isSpace d = false ∧ d ≠ '\n' ∧ ∀ rest, readEscape? (d :: (e ++ rest)) = some (c, rest) := by
  have hnat : ∀ n, c.toNat = n → c = Char.ofNat n := fun n h => by rw [← h, Char.ofNat_toNat]
  rw [escape.eq_def]
  split
  · exact ⟨'t', [], rfl, rfl, by decide, fun _ => rfl⟩
  · exact ⟨'n', [], rfl, rfl, by decide, fun _ => rfl⟩
  · exact ⟨'r', [], rfl, rfl, by decide, fun _ => rfl⟩
  · split
    · next h =>
      rcases h with rfl | rfl
      · exact ⟨_, [], rfl, rfl, by decide, fun _ => rfl⟩
      · exact ⟨_, [], rfl, rfl, by decide, fun _ => rfl⟩
    split
    · next h =>
      rw [hnat 8 h]
      exact ⟨'b', [], rfl, rfl, by decide, fun _ => rfl⟩
    split
    · next h =>
      rw [hnat 12 h]
      exact ⟨'f', [], rfl, rfl, by decide, fun _ => rfl⟩
    · exact ⟨'u', _, rfl, rfl, by decide, readEscape?_hex hc⟩

theorem toNat_lt_of_isControl {c : Char} (h : isControl c = true) : c.toNat < 128 := by
  simp only [isControl, Bool.or_eq_true, Bool.and_eq_true, decide_eq_true_eq, beq_iff_eq] at h
  omega

/-- A character of the content stands as one quote more in a row, as an escape, or as it is. -/
theorem escaped_cons (lines : Bool) (free row : Nat) (c : Char) (cs : List Char) :
    (c = quote ∧ row < free ∧
      escaped lines free row (c :: cs) = c :: escaped lines free (row + 1) cs) ∨
    (c.toNat < 128 ∧ escaped lines free row (c :: cs) = escape c ++ escaped lines free 0 cs) ∨
    (c ≠ quote ∧ c ≠ backslash ∧ (isControl c = true → c = '\n' ∧ lines = true) ∧
      escaped lines free row (c :: cs) = c :: escaped lines free 0 cs) := by
  rw [escaped]
  split
  · next hquote =>
    split
    · next hrow => exact .inl ⟨hquote, hrow, rfl⟩
    · exact .inr (.inl ⟨by rw [hquote]; decide, rfl⟩)
  · next hquote =>
    split
    · next hline =>
      obtain ⟨rfl, hlines⟩ := hline
      exact .inr (.inr ⟨hquote, by decide, fun _ => ⟨rfl, hlines⟩, rfl⟩)
    · split
      · next hspecial =>
        refine .inr (.inl ⟨?_, rfl⟩)
        rcases hspecial with h | rfl | rfl
        · exact toNat_lt_of_isControl h
        · decide
        · decide
      · next hspecial =>
        obtain ⟨hcontrol, hrest⟩ := not_or.1 hspecial
        exact .inr (.inr ⟨hquote, (not_or.1 hrest).2, fun h => absurd h hcontrol, rfl⟩)

/-! ### One line -/

theorem readBasic?_quote (cs : List Char) : readBasic? (quote :: cs) = some ([], cs) := by
  rw [readBasic?.eq_def]
  exact if_pos rfl

theorem readBasic?_escape {cs rest : List Char} {c : Char} (h : readEscape? cs = some (c, rest)) :
    readBasic? (backslash :: cs) = (readBasic? rest).map fun r => (c :: r.1, r.2) := by
  have hquote : ¬backslash = quote := by decide
  rw [readBasic?.eq_def]
  simp only [if_neg hquote, if_true]
  split
  · next hread =>
    rw [h] at hread
    cases hread
    rfl
  · next hread =>
    rw [h] at hread
    cases hread

theorem readBasic?_plain {c : Char} (hquote : c ≠ quote) (hbackslash : c ≠ backslash)
    (hcontrol : ¬isControl c = true) (cs : List Char) :
    readBasic? (c :: cs) = (readBasic? cs).map fun r => (c :: r.1, r.2) := by
  rw [readBasic?.eq_def]
  simp only [if_neg hquote, if_neg hbackslash, if_neg hcontrol]

theorem readBasic?_escaped (cs rest : List Char) (row : Nat) :
    readBasic? (escaped false 0 row cs ++ quote :: rest) = some (cs, rest) := by
  induction cs generalizing row with
  | nil => exact readBasic?_quote rest
  | cons c cs ih =>
    rcases escaped_cons false 0 row c cs with ⟨-, hrow, -⟩ | ⟨hascii, heq⟩ | ⟨hq, hb, hc, heq⟩
    · exact absurd hrow (Nat.not_lt_zero _)
    · obtain ⟨d, e, hescape, -, -, hread⟩ := exists_escape hascii
      rw [heq, hescape, List.append_assoc, List.cons_append, List.cons_append,
        readBasic?_escape (hread _), ih]
      rfl
    · rw [heq, List.cons_append, readBasic?_plain hq hb fun h => Bool.false_ne_true (hc h).2, ih]
      rfl

theorem readLiteral?_append {cs : List Char}
    (h : ∀ c ∈ cs, ¬isControl c = true ∧ c ≠ apostrophe) (rest : List Char) :
    readLiteral? (cs ++ apostrophe :: rest) = some (cs, rest) := by
  induction cs with
  | nil => exact if_pos rfl
  | cons c cs ih =>
    obtain ⟨⟨hcontrol, happos⟩, h⟩ := List.forall_mem_cons.1 h
    rw [List.cons_append, readLiteral?, if_neg happos, if_neg hcontrol, ih h]
    rfl

/-! ### Several lines -/

section Closing

variable {q d : Char} {j : Nat}

theorem takeWhile_replicate_append (q : Char) (j : Nat) {rest : List Char}
    (hrest : rest.head? ≠ some q) :
    (List.replicate j q ++ rest).takeWhile (· = q) = List.replicate j q := by
  have hnil : rest.takeWhile (· = q) = [] := by
    cases rest with
    | nil => rfl
    | cons c rest =>
      refine List.takeWhile_cons_of_neg ?_
      simpa using hrest
  rw [List.takeWhile_append_of_pos (by simp [List.mem_replicate]), hnil, List.append_nil]

/-- Two quotes close nothing. -/
theorem closing?_eq_none (hj : j ≤ 2) (hd : d ≠ q) (rest : List Char) :
    closing? q (List.replicate j q ++ d :: rest) = none := by
  rw [closing?, takeWhile_replicate_append q j (by simpa using hd), List.length_replicate]
  exact if_neg (by omega)

/-- Of up to five quotes the last three close, and the others are content. -/
theorem closing?_eq_some (hj : j ≤ 2) {rest : List Char} (hrest : rest.head? ≠ some q) :
    closing? q (List.replicate j q ++ (List.replicate 3 q ++ rest)) =
      some (List.replicate j q, rest) := by
  have hmin : min 5 (j + 3) = j + 3 := by omega
  rw [← List.append_assoc, List.replicate_append_replicate, closing?,
    takeWhile_replicate_append q _ hrest]
  simp only [List.length_replicate, hmin, if_pos (Nat.le_add_left 3 j), Nat.add_sub_cancel]
  rw [List.drop_left' (List.length_replicate ..)]

end Closing

/-- A text of which `row` quotes stand right in front: it is nothing but quotes, at most two with
those in front, or its quotes end before there are three. -/
def HasShortRow (q : Char) (row : Nat) (cs : List Char) : Prop :=
  ∃ j, row + j ≤ 2 ∧
    (cs = List.replicate j q ∨ ∃ d rest, d ≠ q ∧ cs = List.replicate j q ++ d :: rest)

theorem HasShortRow.cons {q : Char} {row : Nat} {cs : List Char} (h : HasShortRow q (row + 1) cs) :
    HasShortRow q row (q :: cs) := by
  obtain ⟨j, hj, rfl | ⟨d, rest, hd, rfl⟩⟩ := h
  · exact ⟨j + 1, by omega, .inl rfl⟩
  · exact ⟨j + 1, by omega, .inr ⟨d, rest, hd, rfl⟩⟩

theorem hasShortRow_cons_of_ne {q d : Char} {row : Nat} (hrow : row ≤ 2) (hd : d ≠ q)
    (cs : List Char) : HasShortRow q row (d :: cs) :=
  ⟨0, hrow, .inr ⟨d, cs, hd, rfl⟩⟩

theorem hasShortRow_escaped {row : Nat} (hrow : row ≤ 2) (cs : List Char) :
    HasShortRow quote row (escaped true 2 row cs) := by
  induction cs generalizing row with
  | nil => exact ⟨0, hrow, .inl rfl⟩
  | cons c cs ih =>
    rcases escaped_cons true 2 row c cs with ⟨rfl, hlt, heq⟩ | ⟨hascii, heq⟩ | ⟨hq, -, -, heq⟩
    · rw [heq]
      exact (ih hlt).cons
    · obtain ⟨d, e, hescape, -⟩ := exists_escape hascii
      rw [heq, hescape]
      exact hasShortRow_cons_of_ne hrow (by decide) _
    · rw [heq]
      exact hasShortRow_cons_of_ne hrow hq _

/-- Content that stands as nothing but quotes is nothing but quotes. -/
theorem eq_replicate_of_escaped {row j : Nat} {cs : List Char}
    (h : escaped true 2 row cs = List.replicate j quote) : cs = List.replicate j quote := by
  induction cs generalizing row j with
  | nil => exact h
  | cons c cs ih =>
    cases j with
    | zero =>
      rcases escaped_cons true 2 row c cs with ⟨-, -, heq⟩ | ⟨-, heq⟩ | ⟨-, -, -, heq⟩ <;>
        rw [heq] at h <;> cases h
    | succ j =>
      rcases escaped_cons true 2 row c cs with ⟨rfl, -, heq⟩ | ⟨hascii, heq⟩ | ⟨hq, -, -, heq⟩
      · rw [heq] at h
        rw [ih (List.cons.inj h).2]
        rfl
      · obtain ⟨d, e, hescape, -⟩ := exists_escape hascii
        rw [heq, hescape] at h
        exact absurd (List.cons.inj h).1 (by decide)
      · rw [heq] at h
        exact absurd (List.cons.inj h).1 hq

theorem readMultiBasic?_closing {cs : List Char} {r : List Char × List Char}
    (h : closing? quote cs = some r) : readMultiBasic? cs = some r := by
  rw [readMultiBasic?.eq_def, h]

theorem readMultiBasic?_escape {d : Char} {cs rest : List Char} {c : Char}
    (hspace : isSpace d = false) (hline : d ≠ '\n')
    (h : readEscape? (d :: cs) = some (c, rest)) :
    readMultiBasic? (backslash :: d :: cs) =
      (readMultiBasic? rest).map fun r => (c :: r.1, r.2) := by
  have hclosing : closing? quote (backslash :: d :: cs) = none :=
    closing?_eq_none (Nat.zero_le 2) (by decide) _
  have hjoin : ¬((d :: cs).dropWhile isSpace).head? = some '\n' := by
    rw [List.dropWhile_cons_of_neg (by simp [hspace])]
    simpa using hline
  rw [readMultiBasic?.eq_def, hclosing]
  simp only [if_true, if_neg hjoin]
  split
  · next hread =>
    rw [h] at hread
    cases hread
    rfl
  · next hread =>
    rw [h] at hread
    cases hread

theorem readMultiBasic?_plain {c : Char} {cs : List Char}
    (hclosing : closing? quote (c :: cs) = none) (hbackslash : c ≠ backslash)
    (hcontrol : isControl c = true → c = '\n') :
    readMultiBasic? (c :: cs) = (readMultiBasic? cs).map fun r => (c :: r.1, r.2) := by
  have hplain : ¬(isControl c = true ∧ c ≠ '\n') := fun h => h.2 (hcontrol h.1)
  rw [readMultiBasic?.eq_def, hclosing]
  simp only [if_neg hbackslash, if_neg hplain]

theorem readMultiBasic?_escaped {rest : List Char} (hrest : rest.head? ≠ some quote)
    (cs : List Char) {row : Nat} (hrow : row ≤ 2) :
    readMultiBasic? (escaped true 2 row cs ++ (List.replicate 3 quote ++ rest)) =
      some (cs, rest) := by
  induction cs generalizing row with
  | nil => exact readMultiBasic?_closing (closing?_eq_some (Nat.zero_le 2) hrest)
  | cons c cs ih =>
    obtain ⟨j, hj, hquotes | ⟨d, more, hd, hmore⟩⟩ := hasShortRow_escaped hrow (c :: cs)
    · rw [hquotes, eq_replicate_of_escaped hquotes]
      exact readMultiBasic?_closing (closing?_eq_some (by omega) hrest)
    · have hclosing : closing? quote (escaped true 2 row (c :: cs) ++
          (List.replicate 3 quote ++ rest)) = none := by
        rw [hmore, List.append_assoc, List.cons_append]
        exact closing?_eq_none (by omega) hd _
      rcases escaped_cons true 2 row c cs with ⟨rfl, hlt, heq⟩ | ⟨hascii, heq⟩ | ⟨-, hb, hc, heq⟩
      · rw [heq, List.cons_append] at hclosing ⊢
        rw [readMultiBasic?_plain hclosing (by decide) (fun h => absurd h (by decide)), ih hlt]
        rfl
      · obtain ⟨d, e, hescape, hspace, hline, hread⟩ := exists_escape hascii
        rw [heq, hescape, List.append_assoc, List.cons_append, List.cons_append,
          readMultiBasic?_escape hspace hline (hread _), ih (Nat.zero_le 2)]
        rfl
      · rw [heq, List.cons_append] at hclosing ⊢
        rw [readMultiBasic?_plain hclosing hb fun h => (hc h).1, ih (Nat.zero_le 2)]
        rfl

/-! The same for content that stands as it is between apostrophes. -/

theorem hasShortRow_of_longestRow {q : Char} {row : Nat} {cs : List Char}
    (h : longestRow q row cs ≤ 2) : HasShortRow q row cs := by
  induction cs generalizing row with
  | nil => exact ⟨0, h, .inl rfl⟩
  | cons c cs ih =>
    rw [longestRow] at h
    split at h
    · next hq =>
      subst hq
      exact (ih h).cons
    · next hq => exact hasShortRow_cons_of_ne (le_trans (le_max_left _ _) h) hq cs

theorem readMultiLiteral?_append {rest : List Char} (hrest : rest.head? ≠ some apostrophe)
    {cs : List Char} {row : Nat} (hrow : longestRow apostrophe row cs ≤ 2)
    (hcontrol : ∀ c ∈ cs, isControl c = true → c = '\n') :
    readMultiLiteral? (cs ++ (List.replicate 3 apostrophe ++ rest)) = some (cs, rest) := by
  induction cs generalizing row with
  | nil =>
    have hclosing := closing?_eq_some (j := 0) (Nat.zero_le 2) hrest
    rw [List.replicate_zero, List.nil_append] at hclosing
    rw [List.nil_append, List.replicate_succ, List.cons_append, readMultiLiteral?]
    rw [List.replicate_succ, List.cons_append] at hclosing
    rw [hclosing]
  | cons c cs ih =>
    obtain ⟨hc, hcontrol⟩ := List.forall_mem_cons.1 hcontrol
    have hplain : ¬(isControl c = true ∧ c ≠ '\n') := fun h => h.2 (hc h.1)
    obtain ⟨j, hj, hquotes | ⟨d, more, hd, hmore⟩⟩ := hasShortRow_of_longestRow hrow
    · have hclosing := closing?_eq_some (j := j) (by omega) hrest
      rw [← hquotes, List.cons_append] at hclosing
      rw [List.cons_append, readMultiLiteral?, hclosing]
    · have hclosing : closing? apostrophe (c :: cs ++ (List.replicate 3 apostrophe ++ rest)) =
          none := by
        rw [hmore, List.append_assoc, List.cons_append]
        exact closing?_eq_none (by omega) hd _
      have hrow' : ∃ row', longestRow apostrophe row' cs ≤ 2 := by
        rw [longestRow] at hrow
        split at hrow
        · exact ⟨_, hrow⟩
        · exact ⟨_, le_trans (le_max_right _ _) hrow⟩
      obtain ⟨row', hrow'⟩ := hrow'
      rw [List.cons_append] at hclosing ⊢
      rw [readMultiLiteral?, hclosing]
      simp only [if_neg hplain]
      rw [ih hrow' hcontrol]
      rfl

/-! ### The four forms -/

/-- A form without escapes is only taken for a content that it shows. -/
theorem Form.shows_of (cs : List Char) :
    (Form.of cs).shows cs = true ∨ Form.of cs = basic ∨ Form.of cs = multiBasic := by
  rw [Form.of]
  split
  · next form h => exact .inl (List.find?_some h)
  · split
    · exact .inr (.inr rfl)
    · exact .inr (.inl rfl)

theorem head?_write (cs : List Char) (form : Form) :
    (form.write cs).head? = some quote ∨ (form.write cs).head? = some apostrophe := by
  cases form with
  | basic => exact .inl rfl
  | literal => exact .inr rfl
  | multiBasic => exact .inl rfl
  | multiLiteral => exact .inr rfl

theorem return_not_mem_escaped (lines : Bool) (free row : Nat) (cs : List Char) :
    '\r' ∉ escaped lines free row cs := by
  have hescape : ∀ c : Char, c.toNat < 128 → '\r' ∉ escape c := by
    have hall : ∀ n < 128, '\r' ∉ escape (Char.ofNat n) := by decide
    intro c hc
    have h := hall c.toNat hc
    rwa [Char.ofNat_toNat] at h
  induction cs generalizing row with
  | nil => exact List.not_mem_nil
  | cons c cs ih =>
    rcases escaped_cons lines free row c cs with ⟨rfl, -, heq⟩ | ⟨hascii, heq⟩ | ⟨-, -, hc, heq⟩
    · rw [heq, List.mem_cons, not_or]
      exact ⟨by decide, ih _⟩
    · rw [heq, List.mem_append, not_or]
      exact ⟨hescape c hascii, ih _⟩
    · rw [heq, List.mem_cons, not_or]
      refine ⟨?_, ih _⟩
      rintro rfl
      exact absurd (hc (by decide)).1 (by decide)

theorem literal_of_shows {cs : List Char} (h : Form.literal.shows cs = true) :
    ∀ c ∈ cs, ¬isControl c = true ∧ c ≠ apostrophe := by
  simpa [Form.shows, not_or] using h

theorem multiLiteral_of_shows {cs : List Char} (h : Form.multiLiteral.shows cs = true) :
    (∀ c ∈ cs, isControl c = true → c = '\n') ∧ longestRow apostrophe 0 cs ≤ 2 := by
  simpa [Form.shows, not_and] using h

/-- No form has a carriage return in it. -/
theorem return_not_mem_write (cs : List Char) : '\r' ∉ (Form.of cs).write cs := by
  have hlead : '\r' ∉ Form.write.lead cs := by
    rw [Form.write.lead]
    split <;> decide
  have hshows := Form.shows_of cs
  cases hform : Form.of cs with
  | basic => simp [Form.write, return_not_mem_escaped, quote]
  | literal =>
    rw [hform] at hshows
    have h := literal_of_shows (hshows.resolve_right (by simp))
    have hmem : '\r' ∉ cs := fun hmem => (h _ hmem).1 (by decide)
    simp [Form.write, hmem, apostrophe]
  | multiBasic => simp [Form.write, return_not_mem_escaped, quote, hlead]
  | multiLiteral =>
    rw [hform] at hshows
    have h := multiLiteral_of_shows (hshows.resolve_right (by simp))
    have hmem : '\r' ∉ cs := fun hmem => absurd (h.1 _ hmem (by decide)) (by decide)
    simp [Form.write, hmem, apostrophe, hlead]

theorem take_three (q : Char) (rest : List Char) :
    (q :: q :: q :: rest).take 3 = List.replicate 3 q := rfl

/-- Three quotes do not stand in front where the content does not begin with one. -/
theorem take_three_ne {q : Char} {body rest : List Char} (hbody : body.head? ≠ some q)
    (hrest : rest.head? ≠ some q) :
    (q :: (body ++ q :: rest)).take 3 ≠ List.replicate 3 q := by
  cases body with
  | nil =>
    cases rest with
    | nil => simp
    | cons c rest => simpa using hrest
  | cons c body =>
    have hc : c ≠ q := by simpa using hbody
    exact fun h => hc (List.cons.inj (List.cons.inj h).2).1

theorem dropLineEnd_of_head?_ne {text : List Char} (h : text.head? ≠ some '\n') :
    dropLineEnd text = text := by
  rw [dropLineEnd.eq_def]
  split
  · exact absurd rfl h
  · rfl

/-- The line end behind the opening quotes is there if the content would lose one otherwise. -/
theorem dropLineEnd_lead {cs text : List Char} (h : '\n' ∉ cs → text.head? ≠ some '\n') :
    dropLineEnd (Form.write.lead cs ++ text) = text := by
  rw [Form.write.lead]
  split
  · rfl
  · next hlines => exact dropLineEnd_of_head?_ne (h (by simpa using hlines))

section Strings

variable {rest : List Char}

theorem readString?_basic (hquote : rest.head? ≠ some quote) (cs : List Char) :
    readString? (Form.basic.write cs ++ rest) = some (cs, rest) := by
  have hhead : (escaped false 0 0 cs).head? ≠ some quote := by
    cases cs with
    | nil => nofun
    | cons c cs =>
      rcases escaped_cons false 0 0 c cs with ⟨-, hrow, -⟩ | ⟨hascii, heq⟩ | ⟨hq, -, -, heq⟩
      · exact absurd hrow (Nat.not_lt_zero _)
      · obtain ⟨d, e, hescape, -⟩ := exists_escape hascii
        rw [heq, hescape]
        exact fun h => absurd (Option.some.inj h) (by decide)
      · rw [heq]
        exact fun h => hq (Option.some.inj h)
  have hwrite : Form.basic.write cs ++ rest = quote :: (escaped false 0 0 cs ++ quote :: rest) := by
    simp [Form.write]
  rw [hwrite, readString?, if_neg (take_three_ne hhead hquote),
    if_neg (by simp [quote, apostrophe]), readPlain?, if_pos rfl]
  exact readBasic?_escaped cs rest 0

theorem readString?_literal (happos : rest.head? ≠ some apostrophe) {cs : List Char}
    (h : ∀ c ∈ cs, ¬isControl c = true ∧ c ≠ apostrophe) :
    readString? (Form.literal.write cs ++ rest) = some (cs, rest) := by
  have hhead : cs.head? ≠ some apostrophe := fun hc => (h _ (List.mem_of_head? hc)).2 rfl
  have hwrite : Form.literal.write cs ++ rest = apostrophe :: (cs ++ apostrophe :: rest) := by
    simp [Form.write]
  rw [hwrite, readString?, if_neg (by simp [quote, apostrophe]),
    if_neg (take_three_ne hhead happos), readPlain?, if_neg (by decide), if_pos rfl]
  exact readLiteral?_append h rest

theorem readString?_multiBasic (hquote : rest.head? ≠ some quote) (cs : List Char) :
    readString? (Form.multiBasic.write cs ++ rest) = some (cs, rest) := by
  have hwrite : Form.multiBasic.write cs ++ rest = quote :: quote :: quote ::
      (Form.write.lead cs ++ (escaped true 2 0 cs ++ (List.replicate 3 quote ++ rest))) := by
    simp [Form.write]
  have hhead : '\n' ∉ cs →
      (escaped true 2 0 cs ++ (List.replicate 3 quote ++ rest)).head? ≠ some '\n' := by
    intro hmem
    cases cs with
    | nil => exact fun h => absurd (Option.some.inj h) (by decide)
    | cons c cs =>
      rcases escaped_cons true 2 0 c cs with ⟨rfl, -, heq⟩ | ⟨hascii, heq⟩ | ⟨-, -, -, heq⟩
      · rw [heq]
        exact fun h => absurd (Option.some.inj h) (by decide)
      · obtain ⟨d, e, hescape, -⟩ := exists_escape hascii
        rw [heq, hescape]
        exact fun h => absurd (Option.some.inj h) (by decide)
      · rw [heq]
        exact fun h => hmem (Option.some.inj h ▸ List.mem_cons_self)
  rw [hwrite, readString?, if_pos (take_three quote _)]
  show readMultiBasic? (dropLineEnd (Form.write.lead cs ++ _)) = _
  rw [dropLineEnd_lead hhead]
  exact readMultiBasic?_escaped hquote cs (Nat.zero_le 2)

theorem readString?_multiLiteral (happos : rest.head? ≠ some apostrophe) {cs : List Char}
    (hcontrol : ∀ c ∈ cs, isControl c = true → c = '\n') (hrow : longestRow apostrophe 0 cs ≤ 2) :
    readString? (Form.multiLiteral.write cs ++ rest) = some (cs, rest) := by
  have hwrite : Form.multiLiteral.write cs ++ rest = apostrophe :: apostrophe :: apostrophe ::
      (Form.write.lead cs ++ (cs ++ (List.replicate 3 apostrophe ++ rest))) := by
    simp [Form.write]
  have hhead : '\n' ∉ cs → (cs ++ (List.replicate 3 apostrophe ++ rest)).head? ≠ some '\n' := by
    intro hmem
    cases cs with
    | nil => exact fun h => absurd (Option.some.inj h) (by decide)
    | cons c cs => exact fun h => hmem (Option.some.inj h ▸ List.mem_cons_self)
  rw [hwrite, readString?, if_neg (by simp [quote, apostrophe]), if_pos (take_three apostrophe _)]
  show readMultiLiteral? (dropLineEnd (Form.write.lead cs ++ _)) = _
  rw [dropLineEnd_lead hhead]
  exact readMultiLiteral?_append happos hrow hcontrol

/-- A string is read back from its text. -/
theorem readString?_quoted (hquote : rest.head? ≠ some quote)
    (happos : rest.head? ≠ some apostrophe) (s : String) :
    readString? ((quoted s).toList ++ rest) = some (s.toList, rest) := by
  have hshows := Form.shows_of s.toList
  rw [quoted, String.toList_ofList]
  cases hform : Form.of s.toList with
  | basic => exact readString?_basic hquote _
  | literal =>
    rw [hform] at hshows
    exact readString?_literal happos (literal_of_shows (hshows.resolve_right (by simp)))
  | multiBasic => exact readString?_multiBasic hquote _
  | multiLiteral =>
    rw [hform] at hshows
    obtain ⟨hcontrol, hrow⟩ := multiLiteral_of_shows (hshows.resolve_right (by simp))
    exact readString?_multiLiteral happos hcontrol hrow

end Strings

end SheetCut.Toml
