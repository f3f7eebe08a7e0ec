import Mathlib.Data.List.TakeWhile
import SheetCut.Json.Printer
import SheetCut.Json.Reader

/-!
# Reading atoms back

Strings and whole numbers are read back as they are written, whatever follows them. A number can
only be told from what follows if that does not go on with it.
-/

namespace SheetCut.Json

open Text

theorem hexNumber?_control : ∀ n < 32,
    hexNumber? ['0', '0', hexDigit (n / 16), hexDigit (n % 16)] = some n := by
  decide

theorem joinUnits_control {n : Nat} (hn : n < 32) (units : List StringUnit) :
    joinUnits (.unit n :: units) = (joinUnits units).map (Char.ofNat n :: ·) := by
  have hhigh : isHighSurrogate n = false := by simp [isHighSurrogate]; omega
  have hlow : isLowSurrogate n = false := by simp [isLowSurrogate]; omega
  cases units with
  | nil => simp [joinUnits, hhigh, hlow]
  | cons u units => cases u <;> simp [joinUnits, hhigh, hlow]

def consUnit (u : StringUnit) (r : List StringUnit × List Char) : List StringUnit × List Char :=
  (u :: r.1, r.2)

theorem readUnits_simpleEscape {c d : Char} (hd : d ≠ 'u') (h : simpleEscape? d = some c)
    (rest : List Char) :
    readUnits ('\\' :: d :: rest) = (readUnits rest).map (consUnit (.char c)) := by
  rw [readUnits.eq_def]
  split
  · next heq => cases heq
  · next heq =>
    cases heq
    exact absurd rfl hd
  · next heq =>
    cases heq
    rw [h]
    cases readUnits rest <;> rfl
  · next hne heq =>
    cases heq
    exact absurd rfl (hne d rest rfl)
  · next heq => cases heq

theorem readUnits_control {n : Nat} (hn : n < 32) (rest : List Char) :
    readUnits ('\\' :: 'u' :: '0' :: '0' :: hexDigit (n / 16) :: hexDigit (n % 16) :: rest) =
      (readUnits rest).map (consUnit (.unit n)) := by
  rw [readUnits, hexNumber?_control n hn]
  cases readUnits rest <;> rfl

theorem readUnits_plain {c : Char} (hquote : c ≠ '"') (hbackslash : c ≠ '\\')
    (hcontrol : ¬c.toNat < 0x20) (rest : List Char) :
    readUnits (c :: rest) = (readUnits rest).map (consUnit (.char c)) := by
  rw [readUnits.eq_def]
  split
  · next heq =>
    cases heq
    exact absurd rfl hquote
  · next heq =>
    cases heq
    exact absurd rfl hbackslash
  · next heq =>
    cases heq
    exact absurd rfl hbackslash
  · next heq =>
    cases heq
    rw [if_neg hcontrol]
    cases readUnits rest <;> rfl
  · next heq => cases heq

/-- Every written character is read as one unit, which stands for it. -/
theorem exists_unit_escape (c : Char) : ∃ u,
    (∀ rest, readUnits (escape c ++ rest) = (readUnits rest).map (consUnit u)) ∧
      ∀ units, joinUnits (u :: units) = (joinUnits units).map (c :: ·) := by
  have hsimple : ∀ c d : Char, d ≠ 'u' → simpleEscape? d = some c → ∃ u,
      (∀ rest, readUnits (['\\', d] ++ rest) = (readUnits rest).map (consUnit u)) ∧
        ∀ units, joinUnits (u :: units) = (joinUnits units).map (c :: ·) :=
    fun c d hd h => ⟨.char c, readUnits_simpleEscape hd h, fun _ => rfl⟩
  have hnat : ∀ n, c.toNat = n → c = Char.ofNat n := fun n h => by rw [← h, Char.ofNat_toNat]
  rw [escape.eq_def]
  split
  · exact hsimple '"' '"' (by decide) rfl
  · exact hsimple '\\' '\\' (by decide) rfl
  · exact hsimple '\n' 'n' (by decide) rfl
  · exact hsimple '\r' 'r' (by decide) rfl
  · exact hsimple '\t' 't' (by decide) rfl
  · next hquote hbackslash _ _ _ =>
    split
    · next h =>
      rw [hnat 8 h]
      exact hsimple _ 'b' (by decide) rfl
    split
    · next h =>
      rw [hnat 12 h]
      exact hsimple _ 'f' (by decide) rfl
    split
    · next h =>
      refine ⟨.unit c.toNat, readUnits_control h, fun units => ?_⟩
      rw [joinUnits_control h, Char.ofNat_toNat]
    · next h =>
      exact ⟨.char c, readUnits_plain (fun h => hquote h) (fun h => hbackslash h) h, fun _ => rfl⟩

theorem exists_units_flatMap_escape (cs : List Char) : ∃ units,
    (∀ rest, readUnits (cs.flatMap escape ++ '"' :: rest) = some (units, rest)) ∧
      joinUnits units = some cs := by
  induction cs with
  | nil => exact ⟨[], fun rest => by simp [readUnits], rfl⟩
  | cons c cs ih =>
    obtain ⟨units, hread, hjoin⟩ := ih
    obtain ⟨u, hu, hc⟩ := exists_unit_escape c
    refine ⟨u :: units, fun rest => ?_, ?_⟩
    · rw [List.flatMap_cons, List.append_assoc, hu, hread, Option.map_some, consUnit]
    · rw [hc, hjoin, Option.map_some]

/-- A quoted string without its opening quote. -/
theorem readString?_quoted (s : String) (rest : List Char) :
    readString? (s.toList.flatMap escape ++ '"' :: rest) = some (some s, rest) := by
  obtain ⟨units, hread, hjoin⟩ := exists_units_flatMap_escape s.toList
  rw [readString?, hread, Option.map_some]
  simp only [hjoin, Option.map_some, String.ofList_toList]

/-- A text that does not go on with a number in front of it. -/
def EndsNumber (rest : List Char) : Prop :=
  ∀ c, rest.head? = some c → ¬isAsciiDigit c = true ∧ c ≠ '.' ∧ c ≠ 'e' ∧ c ≠ 'E'

/-- The rest of a number, whose sign is known. -/
def readMagnitude? (negative : Bool) (body : List Char) : Option (Json × List Char) := do
  let (whole, rest) ← readWhole? body
  let (fraction, rest) ← readFraction? rest
  let (power, rest) ← readPower? rest
  return (numberOf negative whole fraction power, rest)

theorem readNumber?_minus (body : List Char) :
    readNumber? ('-' :: body) = readMagnitude? true body := rfl

theorem readNumber?_of_ne {c : Char} (hc : c ≠ '-') (cs : List Char) :
    readNumber? (c :: cs) = readMagnitude? false (c :: cs) := by
  rw [readNumber?]
  · rfl
  · intro rest h
    cases h
    exact hc rfl

section

variable {cs rest : List Char} {p : Char → Bool}

theorem takeWhile_append_of_head (h : ∀ c, rest.head? = some c → ¬p c = true) :
    (cs ++ rest).takeWhile p = cs.takeWhile p := by
  induction cs with
  | nil =>
    cases rest with
    | nil => rfl
    | cons c rest => rw [List.nil_append, List.takeWhile_cons_of_neg (h c rfl), List.takeWhile_nil]
  | cons c cs ih =>
    rw [List.cons_append, List.takeWhile_cons, List.takeWhile_cons, ih]

theorem dropWhile_append_of_head (h : ∀ c, rest.head? = some c → ¬p c = true) :
    (cs ++ rest).dropWhile p = cs.dropWhile p ++ rest := by
  induction cs with
  | nil =>
    cases rest with
    | nil => rfl
    | cons c rest =>
      rw [List.nil_append, List.dropWhile_cons_of_neg (h c rfl), List.dropWhile_nil]
      rfl
  | cons c cs ih =>
    rw [List.cons_append, List.dropWhile_cons, List.dropWhile_cons, ih]
    split <;> rfl

theorem takeSign_append (hcs : cs ≠ []) :
    takeSign (cs ++ rest) = ((takeSign cs).1, (takeSign cs).2 ++ rest) := by
  cases cs with
  | nil => exact absurd rfl hcs
  | cons c cs =>
    by_cases hplus : c = '+'
    · subst hplus
      rfl
    by_cases hminus : c = '-'
    · subst hminus
      rfl
    · simp [takeSign, hplus, hminus]

variable (hrest : EndsNumber rest)

include hrest

theorem readWhole?_append {ds tail : List Char} (h : readWhole? cs = some (ds, tail)) :
    readWhole? (cs ++ rest) = some (ds, tail ++ rest) := by
  have hhead : ∀ c, rest.head? = some c → ¬isAsciiDigit c = true := fun c hc => (hrest c hc).1
  rw [readWhole?.eq_def] at h
  split at h
  · next t =>
    split at h
    · cases h
    · next hdigit =>
      cases h
      have hdigit' : ¬(tail ++ rest).head?.any isAsciiDigit = true := by
        cases tail with
        | cons c tail => exact hdigit
        | nil =>
          cases hc : rest.head? with
          | none => simp [hc]
          | some c => simpa [hc] using hhead c hc
      rw [List.cons_append, readWhole?, if_neg hdigit']
  · next hzero =>
    dsimp only at h
    split at h
    · cases h
    · next hne =>
      cases h
      rw [readWhole?.eq_def]
      split
      · next t ht =>
        cases cs with
        | nil => exact absurd rfl hne
        | cons c cs =>
          cases ht
          exact absurd rfl (hzero cs)
      · rw [takeWhile_append_of_head hhead, dropWhile_append_of_head hhead, if_neg hne]

theorem readFraction?_append {fraction : Option (List Char)} {tail : List Char}
    (h : readFraction? cs = some (fraction, tail)) :
    readFraction? (cs ++ rest) = some (fraction, tail ++ rest) := by
  have hhead : ∀ c, rest.head? = some c → ¬isAsciiDigit c = true := fun c hc => (hrest c hc).1
  rw [readFraction?.eq_def] at h
  split at h
  · next t =>
    dsimp only at h
    split at h
    · cases h
    · next hne =>
      cases h
      rw [List.cons_append, readFraction?, takeWhile_append_of_head hhead,
        dropWhile_append_of_head hhead, if_neg hne]
  · next hpoint =>
    cases h
    rw [readFraction?.eq_def]
    split
    · next t ht =>
      cases cs with
      | nil =>
        have hc : rest.head? = some '.' := by rw [← List.nil_append rest, ht]; rfl
        exact absurd rfl (hrest '.' hc).2.1
      | cons c cs =>
        cases ht
        exact absurd rfl (hpoint cs)
    · rfl

theorem readPower?_append {power : Option Int} {tail : List Char}
    (h : readPower? cs = some (power, tail)) :
    readPower? (cs ++ rest) = some (power, tail ++ rest) := by
  have hhead : ∀ c, rest.head? = some c → ¬isAsciiDigit c = true := fun c hc => (hrest c hc).1
  cases cs with
  | nil =>
    cases h
    cases hcs : rest with
    | nil => rfl
    | cons c t =>
      obtain ⟨-, -, he, hE⟩ := hrest c (by rw [hcs]; rfl)
      exact if_neg (not_or.2 ⟨he, hE⟩)
  | cons c t =>
    rw [readPower?] at h
    rw [List.cons_append, readPower?]
    split at h
    · next he =>
      dsimp only at h
      split at h
      · cases h
      · next hne =>
        cases h
        have ht : t ≠ [] := fun ht => hne (by rw [ht]; rfl)
        rw [if_pos he, takeSign_append ht]
        dsimp only
        rw [takeWhile_append_of_head hhead, dropWhile_append_of_head hhead, if_neg hne]
    · next he =>
      cases h
      rw [if_neg he]
      rfl

theorem readMagnitude?_append {negative : Bool} {j : Json}
    (h : readMagnitude? negative cs = some (j, [])) :
    readMagnitude? negative (cs ++ rest) = some (j, rest) := by
  rw [readMagnitude?] at h
  obtain ⟨⟨whole, tail₁⟩, hwhole, h⟩ := Option.bind_eq_some_iff.1 h
  obtain ⟨⟨fraction, tail₂⟩, hfraction, h⟩ := Option.bind_eq_some_iff.1 h
  obtain ⟨⟨power, tail₃⟩, hpower, h⟩ := Option.bind_eq_some_iff.1 h
  cases h
  rw [readMagnitude?, readWhole?_append hrest hwhole]
  simp only [Option.bind_eq_bind, Option.bind_some, readFraction?_append hrest hfraction,
    readPower?_append hrest hpower]
  rfl

theorem readNumber?_append {j : Json} (h : readNumber? cs = some (j, [])) :
    readNumber? (cs ++ rest) = some (j, rest) := by
  cases cs with
  | nil => cases h
  | cons c cs =>
    by_cases hminus : c = '-'
    · subst hminus
      exact readMagnitude?_append hrest h
    · rw [readNumber?_of_ne hminus] at h
      rw [List.cons_append, readNumber?_of_ne hminus]
      exact readMagnitude?_append hrest h

end

def extendDigits (n : Nat) (ds : List Char) : Nat := ds.foldl (fun n d => 10 * n + digitValue d) n

theorem le_extendDigits (n : Nat) (ds : List Char) : n ≤ extendDigits n ds := by
  induction ds generalizing n with
  | nil => exact Nat.le_refl n
  | cons d ds ih =>
    have h := ih (10 * n + digitValue d)
    rw [extendDigits, List.foldl_cons]
    rw [extendDigits] at h
    omega

theorem takeFitting_eq {n : Nat} {ds : List Char} (h : extendDigits n ds < UInt64.size) :
    takeFitting n ds = (extendDigits n ds, ds.length, []) := by
  induction ds generalizing n with
  | nil => rfl
  | cons d ds ih =>
    have hnext : 10 * n + digitValue d < UInt64.size :=
      Nat.lt_of_le_of_lt (le_extendDigits _ ds) h
    rw [takeFitting, if_pos hnext, ih h]
    rfl

theorem extendDigits_toDigits (n : Nat) : extendDigits 0 (Nat.toDigits 10 n) = n := by
  have h := Nat.ofDigitChars_ten_toDigits (n := n)
  rwa [Nat.ofDigitChars_eq_foldl] at h

theorem isAsciiDigit_of_mem_toDigits {n : Nat} {c : Char} (h : c ∈ Nat.toDigits 10 n) :
    isAsciiDigit c = true := by
  have hdigit := Nat.isDigit_of_mem_toDigits (by decide) (Nat.le_refl 10) h
  simpa [isAsciiDigit, Char.isDigit, Char.le_def] using hdigit

/-- A positive number does not begin with a zero. -/
theorem head?_toDigits_ne_zero {n : Nat} (hn : 0 < n) : (Nat.toDigits 10 n).head? ≠ some '0' := by
  induction n using Nat.strongRecOn with
  | ind n ih =>
    by_cases hlt : n < 10
    · have hdigit : ∀ n < 10, 0 < n → n.digitChar ≠ '0' := by decide
      rw [Nat.toDigits_of_lt_base hlt, List.head?_cons]
      exact fun h => hdigit n hlt hn (Option.some.inj h)
    · have hhead := ih (n / 10) (by omega) (by omega)
      rw [Nat.toDigits_of_base_le (by decide) (by omega)]
      cases hds : Nat.toDigits 10 (n / 10) with
      | nil => exact absurd hds Nat.toDigits_ne_nil
      | cons d ds =>
        rw [hds] at hhead
        exact hhead

theorem readWhole?_toDigits (n : Nat) :
    readWhole? (Nat.toDigits 10 n) = some (Nat.toDigits 10 n, []) := by
  rcases Nat.eq_zero_or_pos n with rfl | hn
  · rfl
  · have hall : ∀ c ∈ Nat.toDigits 10 n, isAsciiDigit c = true :=
      fun c hc => isAsciiDigit_of_mem_toDigits hc
    have hhead := head?_toDigits_ne_zero hn
    rw [readWhole?.eq_def]
    split
    · next t ht => exact absurd (by rw [ht]; rfl) hhead
    · rw [List.takeWhile_eq_self_iff.2 hall, List.dropWhile_eq_nil_iff.2 hall,
        if_neg Nat.toDigits_ne_nil]

theorem readMagnitude?_toDigits (negative : Bool) (n : Nat) :
    readMagnitude? negative (Nat.toDigits 10 n) =
      some (numberOf negative (Nat.toDigits 10 n) none none, []) := by
  rw [readMagnitude?, readWhole?_toDigits]
  rfl

theorem readNumber?_toDigits (n : Nat) :
    readNumber? (Nat.toDigits 10 n) =
      some (numberOf false (Nat.toDigits 10 n) none none, []) := by
  rw [← readMagnitude?_toDigits]
  cases hds : Nat.toDigits 10 n with
  | nil => exact absurd hds Nat.toDigits_ne_nil
  | cons c ds =>
    have hdigit : isAsciiDigit c = true :=
      isAsciiDigit_of_mem_toDigits (hds ▸ List.mem_cons_self)
    exact readNumber?_of_ne (fun hc => absurd (hc ▸ hdigit) (by decide)) ds

theorem readNumber?_integer {n : Int} (hmin : Int64.minValue.toInt ≤ n) (hmax : n < UInt64.size) :
    readNumber? (toString n).toList = some (integer n, []) := by
  cases n with
  | ofNat n =>
    have htext : (toString (Int.ofNat n)).toList = Nat.toDigits 10 n := Nat.toList_repr
    have hfit : extendDigits 0 (Nat.toDigits 10 n) < UInt64.size := by
      rw [extendDigits_toDigits]
      exact Int.ofNat_lt.1 hmax
    rw [htext, readNumber?_toDigits, numberOf, takeFitting_eq hfit, extendDigits_toDigits]
    rfl
  | negSucc n =>
    have htext : (toString (Int.negSucc n)).toList = '-' :: Nat.toDigits 10 (n + 1) := by
      show ("-" ++ (n + 1).repr).toList = _
      rw [String.toList_append, Nat.toList_repr]
      rfl
    have hmin : -9223372036854775808 ≤ Int.negSucc n := hmin
    have hsize : UInt64.size = 18446744073709551616 := rfl
    have hfit : extendDigits 0 (Nat.toDigits 10 (n + 1)) < UInt64.size := by
      rw [extendDigits_toDigits]
      omega
    have hrange : ¬(n + 1 = 0 ∨ -((n + 1 : Nat) : Int) < Int64.minValue.toInt) := by
      show ¬(n + 1 = 0 ∨ -((n + 1 : Nat) : Int) < -9223372036854775808)
      omega
    rw [htext, readNumber?_minus, readMagnitude?_toDigits, numberOf, takeFitting_eq hfit,
      extendDigits_toDigits]
    exact congrArg (fun j => some (j, [])) (if_neg hrange)

end SheetCut.Json
