import SheetCut.Decimal.Numeral
import SheetCut.Proofs.Json.Atoms

/-!
# The grammar of numerals

A numeral is spelled `sign? (D+ '.'? D* | '.' D+) ([eE] sign? D+)?`, where `D` is a digit of any
script. Reading takes the longest numeral at the head of a text: a point and an exponent are left
in the text where they are not complete.
-/

namespace SheetCut

open Text

namespace Numeral

/-- The spelling of an optional sign. The flag says that it is a minus. -/
inductive SpellsSign : Bool → List Char → Prop
  | absent : SpellsSign false []
  | plus : SpellsSign false ['+']
  | minus : SpellsSign true ['-']

/-- The spelling of the digits in front of the point and behind it. There are some, and the point
is only needed if there are digits behind it. -/
inductive SpellsMantissa : List Char → List Char → List Char → Prop
  | whole {whole : List Char} (hne : whole ≠ []) (hwhole : ∀ c ∈ whole, isDigit c = true) :
      SpellsMantissa whole [] whole
  | point {whole fraction : List Char} (hne : whole ≠ [] ∨ fraction ≠ [])
      (hwhole : ∀ c ∈ whole, isDigit c = true) (hfraction : ∀ c ∈ fraction, isDigit c = true) :
      SpellsMantissa whole fraction (whole ++ '.' :: fraction)

inductive SpellsExponent : Option (Bool × List Char) → List Char → Prop
  | absent : SpellsExponent none []
  | present {c : Char} {negative : Bool} {sign digits : List Char} (hc : c = 'e' ∨ c = 'E')
      (hsign : SpellsSign negative sign) (hne : digits ≠ [])
      (hdigits : ∀ d ∈ digits, isDigit d = true) :
      SpellsExponent (some (negative, digits)) (c :: (sign ++ digits))

inductive Spells : Numeral → List Char → Prop
  | mk {n : Numeral} {sign mantissa exponent : List Char} (hsign : SpellsSign n.negative sign)
      (hmantissa : SpellsMantissa n.whole n.fraction mantissa)
      (hexponent : SpellsExponent n.exponent exponent) : Spells n (sign ++ (mantissa ++ exponent))

def IsNumeral (cs : List Char) : Prop := ∃ n, Spells n cs

/-- The numeral `p` is at the head of the text `t`, and no longer one is. -/
structure IsLongest (p t : List Char) : Prop where
  isNumeral : IsNumeral p
  atHead : p <+: t
  length_le : ∀ q, q <+: t → IsNumeral q → q.length ≤ p.length

section Sign

variable {c : Char} {cs rest : List Char} {negative : Bool}

theorem takeSign_of_isDigit_or_point (hc : isDigit c = true ∨ c = '.') (cs : List Char) :
    takeSign (c :: cs) = (false, c :: cs) := by
  have hplus : c ≠ '+' := by
    rintro rfl
    revert hc
    decide
  have hminus : c ≠ '-' := by
    rintro rfl
    revert hc
    decide
  simp [takeSign, hplus, hminus]

theorem SpellsSign.takeSign_append (h : SpellsSign negative cs)
    (hrest : ∃ c tail, rest = c :: tail ∧ (isDigit c = true ∨ c = '.')) :
    takeSign (cs ++ rest) = (negative, rest) := by
  obtain ⟨c, tail, rfl, hc⟩ := hrest
  cases h with
  | absent => exact takeSign_of_isDigit_or_point hc tail
  | plus => rfl
  | minus => rfl

theorem exists_spellsSign (cs : List Char) :
    ∃ sign, cs = sign ++ (takeSign cs).2 ∧ SpellsSign (takeSign cs).1 sign := by
  rw [takeSign.eq_def]
  split
  · exact ⟨['+'], rfl, .plus⟩
  · exact ⟨['-'], rfl, .minus⟩
  · exact ⟨[], rfl, .absent⟩

end Sign

section Mantissa

variable {cs rest whole fraction : List Char}

def EndsMantissa (rest : List Char) : Prop :=
  ∀ c, rest.head? = some c → isDigit c = false ∧ c ≠ '.'

theorem SpellsMantissa.exists_cons (h : SpellsMantissa whole fraction cs) (rest : List Char) :
    ∃ c tail, cs ++ rest = c :: tail ∧ (isDigit c = true ∨ c = '.') := by
  cases h with
  | whole hne hwhole =>
    cases cs with
    | nil => exact absurd rfl hne
    | cons c cs => exact ⟨c, cs ++ rest, rfl, .inl (hwhole c List.mem_cons_self)⟩
  | point hne hwhole hfraction =>
    cases whole with
    | nil => exact ⟨'.', fraction ++ rest, rfl, .inr rfl⟩
    | cons c cs => exact ⟨c, _, rfl, .inl (hwhole c List.mem_cons_self)⟩

theorem takeWhile_isDigit_append (h : ∀ c ∈ whole, isDigit c = true) (rest : List Char) :
    (whole ++ rest).takeWhile isDigit = whole ++ rest.takeWhile isDigit :=
  List.takeWhile_append_of_pos h

theorem dropWhile_isDigit_append (h : ∀ c ∈ whole, isDigit c = true) (rest : List Char) :
    (whole ++ rest).dropWhile isDigit = rest.dropWhile isDigit :=
  List.dropWhile_append_of_pos h

theorem length_dropWhile_isDigit_le (cs : List Char) :
    (cs.dropWhile isDigit).length ≤ cs.length :=
  (List.dropWhile_sublist isDigit).length_le

theorem EndsMantissa.takeWhile_eq (h : EndsMantissa rest) : rest.takeWhile isDigit = [] := by
  cases rest with
  | nil => rfl
  | cons c tail => simp [(h c rfl).1]

theorem EndsMantissa.dropWhile_eq (h : EndsMantissa rest) : rest.dropWhile isDigit = rest := by
  cases rest with
  | nil => rfl
  | cons c tail => simp [(h c rfl).1]

theorem readMantissa?_whole (hne : whole ≠ []) (hwhole : ∀ c ∈ whole, isDigit c = true)
    (hrest : EndsMantissa rest) : readMantissa? (whole ++ rest) = some (whole, [], rest) := by
  rw [readMantissa?, takeWhile_isDigit_append hwhole, dropWhile_isDigit_append hwhole,
    hrest.takeWhile_eq, hrest.dropWhile_eq]
  cases rest with
  | nil => simp [hne]
  | cons c tail => simp [hne, (hrest c rfl).2]

theorem readMantissa?_point (hne : whole ≠ [] ∨ rest.takeWhile isDigit ≠ [])
    (hwhole : ∀ c ∈ whole, isDigit c = true) :
    readMantissa? (whole ++ '.' :: rest) =
      some (whole, rest.takeWhile isDigit, rest.dropWhile isDigit) := by
  have hpoint : isDigit '.' = false := by decide
  have hnot : ¬(whole = [] ∧ rest.takeWhile isDigit = []) := by
    rintro ⟨hwhole, hfraction⟩
    exact hne.elim (· hwhole) (· hfraction)
  rw [readMantissa?, takeWhile_isDigit_append hwhole, dropWhile_isDigit_append hwhole]
  simp only [List.takeWhile_cons, List.dropWhile_cons, hpoint]
  simpa using hnot

/-- Digits alone are followed by more digits, by a point or by neither. -/
theorem exists_readMantissa?_of_digits (hne : whole ≠ []) (hwhole : ∀ c ∈ whole, isDigit c = true)
    (rest : List Char) : ∃ whole' fraction rest',
      readMantissa? (whole ++ rest) = some (whole', fraction, rest') ∧
        rest'.length ≤ rest.length := by
  have hdigits : ∀ c ∈ whole ++ rest.takeWhile isDigit, isDigit c = true := by
    intro c hc
    rcases List.mem_append.1 hc with hc | hc
    · exact hwhole c hc
    · exact List.mem_takeWhile_imp hc
  have hne' : whole ++ rest.takeWhile isDigit ≠ [] := List.append_ne_nil_of_left_ne_nil hne _
  have hparts : whole ++ rest = whole ++ rest.takeWhile isDigit ++ rest.dropWhile isDigit := by
    rw [List.append_assoc, List.takeWhile_append_dropWhile]
  have hle := length_dropWhile_isDigit_le rest
  have hhead : ∀ c, (rest.dropWhile isDigit).head? = some c → isDigit c = false := by
    intro c hc
    have hnot := List.head?_dropWhile_not isDigit rest
    rw [hc] at hnot
    exact hnot
  rw [hparts]
  by_cases hpoint : (rest.dropWhile isDigit).head? = some '.'
  · obtain ⟨tail, htail⟩ := List.head?_eq_some_iff.1 hpoint
    rw [htail] at hle ⊢
    refine ⟨_, _, _, readMantissa?_point (.inl hne') hdigits, ?_⟩
    exact ((length_dropWhile_isDigit_le tail).trans (Nat.le_succ _)).trans hle
  · refine ⟨_, _, _, readMantissa?_whole hne' hdigits ?_, hle⟩
    intro c hc
    exact ⟨hhead c hc, fun heq => hpoint (heq ▸ hc)⟩

/-- What is left of the text behind the digits is no longer than what follows the spelling. -/
theorem SpellsMantissa.exists_readMantissa? (h : SpellsMantissa whole fraction cs)
    (rest : List Char) : ∃ whole' fraction' rest',
      readMantissa? (cs ++ rest) = some (whole', fraction', rest') ∧
        rest'.length ≤ rest.length := by
  cases h with
  | whole hne hwhole => exact exists_readMantissa?_of_digits hne hwhole rest
  | point hne hwhole hfraction =>
    rw [List.append_assoc, List.cons_append]
    refine ⟨_, _, _, readMantissa?_point ?_ hwhole, ?_⟩
    · rw [takeWhile_isDigit_append hfraction]
      exact hne.imp_right fun hne => List.append_ne_nil_of_left_ne_nil hne _
    · rw [dropWhile_isDigit_append hfraction]
      exact length_dropWhile_isDigit_le rest

theorem SpellsMantissa.readMantissa?_append (h : SpellsMantissa whole fraction cs)
    (hrest : EndsMantissa rest) :
    readMantissa? (cs ++ rest) = some (whole, fraction, rest) := by
  cases h with
  | whole hne hwhole => exact readMantissa?_whole hne hwhole hrest
  | point hne hwhole hfraction =>
    have htake : (fraction ++ rest).takeWhile isDigit = fraction := by
      rw [takeWhile_isDigit_append hfraction, hrest.takeWhile_eq, List.append_nil]
    have hdrop : (fraction ++ rest).dropWhile isDigit = rest := by
      rw [dropWhile_isDigit_append hfraction, hrest.dropWhile_eq]
    rw [List.append_assoc, List.cons_append, readMantissa?_point (by rwa [htake]) hwhole, htake,
      hdrop]

theorem spellsMantissa_of_readMantissa? (h : readMantissa? cs = some (whole, fraction, rest)) :
    ∃ mantissa, cs = mantissa ++ rest ∧ SpellsMantissa whole fraction mantissa := by
  have hdigits : ∀ cs : List Char, ∀ c ∈ cs.takeWhile isDigit, isDigit c = true :=
    fun cs c hc => List.mem_takeWhile_imp hc
  have hparts := List.takeWhile_append_dropWhile (p := isDigit) (l := cs)
  rw [readMantissa?] at h
  split at h
  · next tail htail =>
    dsimp only at h
    split at h
    · cases h
    · next hne =>
      cases h
      refine ⟨_, ?_, .point (not_and_or.1 hne) (hdigits cs) (hdigits tail)⟩
      rw [List.append_assoc, List.cons_append, List.takeWhile_append_dropWhile, ← htail, hparts]
  · split at h
    · cases h
    · next hne =>
      cases h
      exact ⟨_, hparts.symm, .whole hne (hdigits cs)⟩

end Mantissa

section Exponent

variable {cs : List Char} {exponent : Option (Bool × List Char)}

theorem readExponent_cons (c : Char) (tail : List Char) : readExponent (c :: tail) =
    if (c = 'e' ∨ c = 'E') ∧ (takeSign tail).2.takeWhile isDigit ≠ [] then
      (some ((takeSign tail).1, (takeSign tail).2.takeWhile isDigit),
        (takeSign tail).2.dropWhile isDigit)
    else (none, c :: tail) := rfl

theorem spellsExponent_readExponent (cs : List Char) :
    ∃ text, cs = text ++ (readExponent cs).2 ∧ SpellsExponent (readExponent cs).1 text := by
  cases cs with
  | nil => exact ⟨[], rfl, .absent⟩
  | cons c tail =>
    obtain ⟨sign, htail, hsign⟩ := exists_spellsSign tail
    rw [readExponent_cons]
    by_cases h : (c = 'e' ∨ c = 'E') ∧ (takeSign tail).2.takeWhile isDigit ≠ []
    · rw [if_pos h]
      refine ⟨_, ?_, .present h.1 hsign h.2 fun d hd => List.mem_takeWhile_imp hd⟩
      rw [List.cons_append, List.append_assoc, List.takeWhile_append_dropWhile, ← htail]
    · rw [if_neg h]
      exact ⟨[], rfl, .absent⟩

theorem length_readExponent_le (cs : List Char) : (readExponent cs).2.length ≤ cs.length := by
  obtain ⟨text, hparts, -⟩ := spellsExponent_readExponent cs
  have hlength := congrArg List.length hparts
  rw [List.length_append] at hlength
  omega

theorem SpellsExponent.endsMantissa (h : SpellsExponent exponent cs) (hne : cs ≠ [])
    (rest : List Char) : EndsMantissa (cs ++ rest) := by
  cases h with
  | absent => exact absurd rfl hne
  | present hc =>
    intro d hd
    cases hd
    rcases hc with rfl | rfl <;> decide

theorem SpellsExponent.readExponent_append (h : SpellsExponent exponent cs) (hne : cs ≠ [])
    (rest : List Char) : readExponent (cs ++ rest) =
      (exponent.map fun e => (e.1, e.2 ++ rest.takeWhile isDigit), rest.dropWhile isDigit) := by
  cases h with
  | absent => exact absurd rfl hne
  | @present c negative sign digits hc hsign hdne hdigits =>
    have hbody : takeSign (sign ++ (digits ++ rest)) = (negative, digits ++ rest) := by
      apply hsign.takeSign_append
      cases digits with
      | nil => exact absurd rfl hdne
      | cons d ds => exact ⟨d, ds ++ rest, rfl, .inl (hdigits d List.mem_cons_self)⟩
    have hsome : digits ++ rest.takeWhile isDigit ≠ [] :=
      List.append_ne_nil_of_left_ne_nil hdne _
    rw [List.cons_append, List.append_assoc, readExponent_cons, hbody,
      takeWhile_isDigit_append hdigits, dropWhile_isDigit_append hdigits, if_pos ⟨hc, hsome⟩]
    rfl

end Exponent

section Numerals

variable {n n' : Numeral} {p q t rest : List Char}

theorem read?_eq_some_of_mantissa {whole fraction after : List Char}
    (h : readMantissa? (takeSign t).2 = some (whole, fraction, after)) :
    read? t = some (⟨(takeSign t).1, whole, fraction, (readExponent after).1⟩,
      (readExponent after).2) := by
  rw [read?]
  simp only [h]

theorem spells_of_read? (h : read? t = some (n, rest)) : ∃ p, t = p ++ rest ∧ Spells n p := by
  obtain ⟨sign, hsigned, hsign⟩ := exists_spellsSign t
  cases hread : readMantissa? (takeSign t).2 with
  | none =>
    rw [read?] at h
    simp [hread] at h
  | some parts =>
    obtain ⟨whole, fraction, after⟩ := parts
    rw [read?_eq_some_of_mantissa hread] at h
    cases h
    obtain ⟨mantissa, hbody, hmantissa⟩ := spellsMantissa_of_readMantissa? hread
    obtain ⟨exponent, hafter, hexponent⟩ := spellsExponent_readExponent after
    refine ⟨sign ++ (mantissa ++ exponent), ?_, .mk hsign hmantissa hexponent⟩
    rw [List.append_assoc, List.append_assoc, ← hafter, ← hbody, ← hsigned]

/-- Whatever numeral a text begins with, reading goes at least as far. -/
theorem Spells.exists_read? (h : Spells n p) (rest : List Char) :
    ∃ n' rest', read? (p ++ rest) = some (n', rest') ∧ rest'.length ≤ rest.length := by
  cases h with
  | @mk sign mantissa exponent hsign hmantissa hexponent =>
    have hbody := hsign.takeSign_append (hmantissa.exists_cons (exponent ++ rest))
    rw [List.append_assoc, List.append_assoc]
    by_cases hne : exponent = []
    · subst hne
      obtain ⟨whole, fraction, after, hread, hle⟩ := hmantissa.exists_readMantissa? rest
      rw [read?_eq_some_of_mantissa (by rw [hbody]; exact hread)]
      exact ⟨_, _, rfl, (length_readExponent_le after).trans hle⟩
    · have hread := hmantissa.readMantissa?_append (hexponent.endsMantissa hne rest)
      rw [read?_eq_some_of_mantissa (by rw [hbody]; exact hread),
        hexponent.readExponent_append hne rest]
      exact ⟨_, _, rfl, length_dropWhile_isDigit_le rest⟩

/-- A numeral alone is read as it is spelled. -/
theorem Spells.read?_eq (h : Spells n p) : read? p = some (n, []) := by
  obtain ⟨negative, whole, fraction, exponent⟩ := n
  cases h with
  | @mk sign mantissa text hsign hmantissa hexponent =>
    have hbody := hsign.takeSign_append (hmantissa.exists_cons text)
    have hends : EndsMantissa text := by
      by_cases hne : text = []
      · subst hne
        exact fun c hc => nomatch hc
      · simpa using hexponent.endsMantissa hne []
    have hafter : readExponent text = (exponent, []) := by
      by_cases hne : text = []
      · subst hne
        cases hexponent
        rfl
      · simpa using hexponent.readExponent_append hne []
    rw [read?_eq_some_of_mantissa (by rw [hbody]; exact hmantissa.readMantissa?_append hends),
      hafter, hbody]

theorem Spells.unique (h : Spells n p) (h' : Spells n' p) : n = n' := by
  have heq := h.read?_eq.symm.trans h'.read?_eq
  simpa using heq

/-- The longest numeral is read. -/
theorem IsLongest.read?_eq (h : IsLongest p t) (hp : Spells n p) :
    ∃ rest, read? t = some (n, rest) := by
  obtain ⟨rest, rfl⟩ := h.atHead
  obtain ⟨n', rest', hread, hle⟩ := hp.exists_read? rest
  obtain ⟨q, hparts, hq⟩ := spells_of_read? hread
  have hlength := h.length_le q ⟨rest', hparts.symm⟩ ⟨n', hq⟩
  have hsum := congrArg List.length hparts
  rw [List.length_append, List.length_append] at hsum
  have hpq : p = q := (List.append_inj hparts (by omega)).1
  subst hpq
  exact ⟨rest', by rw [hread, hp.unique hq]⟩

end Numerals

end Numeral

end SheetCut
