import Mathlib.Data.List.Forall2
import Mathlib.Data.List.TakeWhile
import SheetCut.Command.Line

/-!
# Programs line by line

A text is read one line at a time, and a line is read without the blanks at its ends. So the
commands of two joined texts are those of the first and then those of the second, and a text may be
laid out anew, with other line ends, blank lines and indentation, without a change of its commands.
-/

namespace SheetCut

namespace Text

def joinLines (lines : List (List Char)) : String := String.ofList (['\n'].intercalate lines)

/-- The text with a carriage return in front of the chosen line feeds. They are chosen by their
places among all characters. -/
def withReturns : (Nat → Bool) → List Char → List Char
  | _, [] => []
  | chosen, c :: cs =>
    let rest := withReturns (fun i => chosen (i + 1)) cs
    if c = '\n' ∧ chosen 0 then '\r' :: c :: rest else c :: rest

def IsSpacing (cs : List Char) : Prop := ∀ c ∈ cs, isBlank c ∧ c ≠ '\n'

/-- The second list of lines is the first one with blanks added at the ends of its lines and with
blank lines in between. -/
inductive Respaced : List (List Char) → List (List Char) → Prop
  | nil : Respaced [] []
  | line {ls ms : List (List Char)} (pre l post : List Char) :
      IsSpacing pre → IsSpacing post → Respaced ls ms →
      Respaced (l :: ls) ((pre ++ l ++ post) :: ms)
  | blankLine {ls ms : List (List Char)} (l : List Char) :
      IsSpacing l → Respaced ls ms → Respaced ls (l :: ms)

instance (cs : List Char) : Decidable (IsSpacing cs) := List.decidableBAll _ cs

theorem isSpacing_nil : IsSpacing [] := by simp [IsSpacing]

theorem IsSpacing.not_mem {cs : List Char} (h : IsSpacing cs) : '\n' ∉ cs :=
  fun hmem => (h '\n' hmem).2 rfl

theorem pieces_append_cons (sep : Char) (a b : List Char) :
    pieces sep (a ++ sep :: b) = pieces sep a ++ pieces sep b := by
  induction a with
  | nil => simp [pieces]
  | cons c a ih =>
    by_cases h : c = sep
    · simp [pieces, h, ih]
    · cases hp : pieces sep a with
      | nil => exact absurd hp (pieces_ne_nil sep a)
      | cons p ps => simp [pieces, h, ih, hp]

theorem pieces_of_not_mem {sep : Char} {l : List Char} (h : sep ∉ l) : pieces sep l = [l] := by
  induction l with
  | nil => rfl
  | cons c l ih =>
    rw [List.mem_cons, not_or] at h
    simp [pieces, Ne.symm h.1, ih h.2]

theorem not_mem_of_mem_pieces {sep : Char} {cs l : List Char} (h : l ∈ pieces sep cs) :
    sep ∉ l := by
  induction cs generalizing l with
  | nil => simp_all [pieces]
  | cons c cs ih =>
    cases hp : pieces sep cs with
    | nil => exact absurd hp (pieces_ne_nil sep cs)
    | cons p ps =>
      rw [hp] at ih
      by_cases hc : c = sep
      · rw [pieces, if_pos hc, hp, List.mem_cons] at h
        rcases h with rfl | h
        · exact List.not_mem_nil
        · exact ih h
      · simp only [pieces, if_neg hc, hp, List.mem_cons] at h
        rcases h with rfl | h
        · rw [List.mem_cons, not_or]
          exact ⟨Ne.symm hc, ih List.mem_cons_self⟩
        · exact ih (List.mem_cons_of_mem p h)

theorem mem_of_mem_trim {c : Char} {cs : List Char} (h : c ∈ trim cs) : c ∈ cs := by
  have hstart : c ∈ trimStart cs :=
    List.mem_reverse.1 ((List.dropWhile_sublist isBlank).mem (List.mem_reverse.1 h))
  exact (List.dropWhile_sublist isBlank).mem hstart

theorem mem_of_mem_pieces {sep c : Char} {cs p : List Char} (hp : p ∈ pieces sep cs) (hc : c ∈ p) :
    c ∈ cs := by
  induction cs generalizing p with
  | nil =>
    rw [pieces, List.mem_singleton] at hp
    rw [hp] at hc
    cases hc
  | cons d cs ih =>
    rw [pieces] at hp
    split at hp
    · rcases List.mem_cons.1 hp with rfl | hp
      · cases hc
      · exact List.mem_cons_of_mem d (ih hp hc)
    · split at hp
      · next heq => exact absurd heq (pieces_ne_nil sep cs)
      · next q qs heq =>
        rcases List.mem_cons.1 hp with rfl | hp
        · rcases List.mem_cons.1 hc with rfl | hc
          · exact List.mem_cons_self
          · exact List.mem_cons_of_mem d (ih (heq ▸ List.mem_cons_self) hc)
        · exact List.mem_cons_of_mem d (ih (heq ▸ List.mem_cons_of_mem q hp) hc)

theorem pieces_intercalate {sep : Char} {ls : List (List Char)} (hne : ls ≠ [])
    (h : ∀ l ∈ ls, sep ∉ l) : pieces sep ([sep].intercalate ls) = ls := by
  induction ls with
  | nil => exact absurd rfl hne
  | cons l ls ih =>
    have hl := pieces_of_not_mem (h l List.mem_cons_self)
    cases ls with
    | nil => rw [List.intercalate_singleton, hl]
    | cons m ms =>
      have hrest := ih (List.cons_ne_nil m ms) fun k hk => h k (List.mem_cons_of_mem l hk)
      rw [List.intercalate_cons_cons, List.append_assoc, List.singleton_append,
        pieces_append_cons, hl, hrest]
      rfl

theorem not_mem_intercalate {sep c : Char} {ls : List (List Char)} (hc : c ≠ sep)
    (h : ∀ l ∈ ls, c ∉ l) : c ∉ [sep].intercalate ls := by
  induction ls with
  | nil => simp
  | cons l ls ih =>
    rw [List.forall_mem_cons] at h
    cases ls with
    | nil => simpa using h.1
    | cons m ms =>
      rw [List.intercalate_cons_cons]
      simp [h.1, hc, ih h.2]

theorem trimStart_append_of_spacing {pre : List Char} (h : IsSpacing pre) (cs : List Char) :
    trimStart (pre ++ cs) = trimStart cs :=
  List.dropWhile_append_of_pos fun c hc => (h c hc).1

theorem trimEnd_append_of_spacing {post : List Char} (h : IsSpacing post) (cs : List Char) :
    trimEnd (cs ++ post) = trimEnd cs := by
  have hpost : ∀ c ∈ post.reverse, isBlank c := fun c hc => (h c (List.mem_reverse.1 hc)).1
  rw [trimEnd, List.reverse_append, List.dropWhile_append_of_pos hpost, ← trimEnd]

theorem trim_of_spacing {cs : List Char} (h : IsSpacing cs) : trim cs = [] := by
  rw [trim, ← List.append_nil cs, trimStart_append_of_spacing h]
  rfl

/-- Blanks behind a line that is blank itself go with the start of the line. -/
theorem trim_append_of_spacing {post : List Char} (h : IsSpacing post) (cs : List Char) :
    trim (cs ++ post) = trim cs := by
  cases hcs : trimStart cs with
  | nil =>
    have hstart : trimStart (cs ++ post) = trimStart post := by
      rw [trimStart, List.dropWhile_append, ← trimStart, hcs]
      rfl
    rw [trim, hstart, ← trim, trim_of_spacing h, trim, hcs]
    rfl
  | cons c rest =>
    have hstart : trimStart (cs ++ post) = c :: rest ++ post := by
      rw [trimStart, List.dropWhile_append, ← trimStart, hcs]
      rfl
    rw [trim, hstart, trimEnd_append_of_spacing h, trim, hcs]

theorem trim_surrounded {pre post : List Char} (hpre : IsSpacing pre) (hpost : IsSpacing post)
    (cs : List Char) : trim (pre ++ cs ++ post) = trim cs := by
  rw [trim_append_of_spacing hpost, trim, trimStart_append_of_spacing hpre, ← trim]

theorem Respaced.ne_nil {ls ms : List (List Char)} (h : Respaced ls ms) (hls : ls ≠ []) :
    ms ≠ [] := by
  cases h with
  | nil => exact hls
  | line => exact List.cons_ne_nil _ _
  | blankLine => exact List.cons_ne_nil _ _

theorem Respaced.not_mem {ls ms : List (List Char)} (h : Respaced ls ms)
    (hls : ∀ l ∈ ls, '\n' ∉ l) : ∀ l ∈ ms, '\n' ∉ l := by
  induction h with
  | nil => exact hls
  | line pre l post hpre hpost _ ih =>
    obtain ⟨hl, hls⟩ := List.forall_mem_cons.1 hls
    refine List.forall_mem_cons.2 ⟨?_, ih hls⟩
    rw [List.mem_append, List.mem_append]
    rintro ((hmem | hmem) | hmem)
    · exact hpre.not_mem hmem
    · exact hl hmem
    · exact hpost.not_mem hmem
  | blankLine l hl _ ih => exact List.forall_mem_cons.2 ⟨hl.not_mem, ih hls⟩

/-- A carriage return before a line feed is the last character of its line. -/
theorem forall₂_pieces_withReturns (chosen : Nat → Bool) (cs : List Char) :
    List.Forall₂ (fun l m => m = l ∨ m = l ++ ['\r']) (pieces '\n' cs)
      (pieces '\n' (withReturns chosen cs)) := by
  induction cs generalizing chosen with
  | nil => simp [withReturns, pieces]
  | cons c cs ih =>
    have hrest := ih fun i => chosen (i + 1)
    rw [withReturns]
    split
    · next h =>
      simp only [h.1, pieces, if_true, if_neg (show '\r' ≠ '\n' by decide)]
      exact .cons (.inr rfl) hrest
    · by_cases hc : c = '\n'
      · simp only [hc, pieces, if_true]
        exact .cons (.inl rfl) hrest
      · simp only [pieces, if_neg hc]
        generalize pieces '\n' cs = ls at hrest
        generalize pieces '\n' (withReturns _ cs) = ms at hrest
        cases hrest with
        | nil => exact .cons (.inl rfl) .nil
        | cons hline hlines =>
          refine .cons ?_ hlines
          rcases hline with rfl | rfl
          · exact .inl rfl
          · exact .inr rfl

theorem respaced_pieces_withReturns (chosen : Nat → Bool) (cs : List Char) :
    Respaced (pieces '\n' cs) (pieces '\n' (withReturns chosen cs)) := by
  have hreturns := forall₂_pieces_withReturns chosen cs
  generalize pieces '\n' cs = ls at hreturns
  generalize pieces '\n' (withReturns chosen cs) = ms at hreturns
  induction hreturns with
  | nil => exact .nil
  | @cons l m ls ms hline _ ih =>
    rcases hline with rfl | rfl
    · simpa using Respaced.line [] m [] isSpacing_nil isSpacing_nil ih
    · exact .line [] l ['\r'] isSpacing_nil (by decide) ih

end Text

namespace Command

open Text

variable {α : Type} [Scalar α]

theorem ofLine_nil : (ofLine [] : List (Command α)) = [] := by
  simp [ofLine, blockHead?, ofBody, Motion.mnemonic?]

theorem flatMap_ofLine_of_respaced {ls ms : List (List Char)} (h : Respaced ls ms) :
    (ms.flatMap fun l => ofLine (trim l) : List (Command α)) =
      ls.flatMap fun l => ofLine (trim l) := by
  induction h with
  | nil => rfl
  | line pre l post hpre hpost _ ih =>
    rw [List.flatMap_cons, List.flatMap_cons, trim_surrounded hpre hpost, ih]
  | blankLine l hl _ ih =>
    rw [List.flatMap_cons, trim_of_spacing hl, ofLine_nil, List.nil_append, ih]

theorem ofText_of_not_mem {text : String} (h : '\n' ∉ text.toList) :
    (ofText text : List (Command α)) = ofLine (trim text.toList) := by
  rw [ofText, pieces_of_not_mem h, List.flatMap_singleton]

theorem ofLine_comment (text : List Char) :
    (ofLine (';' :: text) : List (Command α)) = [comment (String.ofList (trim text))] := by
  rw [ofLine]

theorem head?_ne_of_forall_ne {c : Char} {line : List Char} (h : ∀ text, line = c :: text → False) :
    line.head? ≠ some c := by
  intro heq
  obtain ⟨text, rfl⟩ := List.head?_eq_some_iff.1 heq
  exact h text rfl

theorem ofLine_of_blockHead?_eq_none {line : List Char} (hhead : line.head? ≠ some ';')
    (h : blockHead? line = none) : (ofLine line : List (Command α)) = ofBody line := by
  rw [ofLine.eq_def]
  split
  · exact absurd rfl hhead
  · split
    · rfl
    · next heq => rw [h] at heq; cases heq

theorem ofLine_of_blockHead? {line number rest : List Char} {n : UInt32}
    (h : blockHead? line = some (number, rest)) (hn : uint32? number = some n) :
    (ofLine line : List (Command α)) = blockMarker n :: ofLine (trim rest) := by
  rw [ofLine.eq_def]
  split
  · cases h
  · split
    · next heq => rw [h] at heq; cases heq
    · next heq =>
      rw [h] at heq
      cases heq
      rw [hn]

/-- A block number out of range drops the line. -/
theorem ofLine_of_uint32?_eq_none {line number rest : List Char}
    (h : blockHead? line = some (number, rest)) (hn : uint32? number = none) :
    (ofLine line : List (Command α)) = [] := by
  rw [ofLine.eq_def]
  split
  · cases h
  · split
    · next heq => rw [h] at heq; cases heq
    · next heq =>
      rw [h] at heq
      cases heq
      rw [hn]

/-- Digits alone are a block number, unless they are out of range. -/
theorem ofLine_blockNumber {ds : List Char} (hne : ds ≠ [])
    (hascii : ∀ c ∈ ds, isAsciiDigit c = true) :
    (ofLine ('N' :: ds) : List (Command α)) = (uint32? ds).toList.map blockMarker := by
  have hdigit : ∀ c ∈ ds, isDigit c = true := fun c hc => isDigit_of_isAsciiDigit (hascii c hc)
  have hhead : blockHead? ('N' :: ds) = some (ds, []) := by
    rw [blockHead?, List.takeWhile_eq_self_iff.2 hdigit, List.dropWhile_eq_nil_iff.2 hdigit]
    exact if_neg hne
  cases hread : uint32? ds with
  | none => rw [ofLine_of_uint32?_eq_none hhead hread]; rfl
  | some n =>
    rw [ofLine_of_blockHead? hhead hread]
    exact congrArg _ ofLine_nil

theorem ofLine_call (rest : List Char) :
    (ofLine ('H' :: 'K' :: rest) : List (Command α)) =
      (MacroCall.ofLine? ('H' :: 'K' :: rest)).toList.map call := by
  rw [ofLine_of_blockHead?_eq_none (by simp) rfl, ofBody]
  rfl

theorem ofText_append (a b : String) :
    (ofText (a ++ "\n" ++ b) : List (Command α)) = ofText a ++ ofText b := by
  have hpieces : pieces '\n' (a ++ "\n" ++ b).toList =
      pieces '\n' a.toList ++ pieces '\n' b.toList := by
    rw [← pieces_append_cons]
    simp
  rw [ofText, hpieces, List.flatMap_append, ← ofText, ← ofText]

theorem ofText_withReturns (chosen : Nat → Bool) (text : String) :
    (ofText (String.ofList (withReturns chosen text.toList)) : List (Command α)) = ofText text := by
  rw [ofText, String.toList_ofList,
    flatMap_ofLine_of_respaced (respaced_pieces_withReturns chosen text.toList), ← ofText]

theorem ofText_joinLines {text : String} {lines : List (List Char)}
    (h : Respaced (pieces '\n' text.toList) lines) :
    (ofText (joinLines lines) : List (Command α)) = ofText text := by
  have hlines : pieces '\n' (joinLines lines).toList = lines := by
    rw [joinLines, String.toList_ofList]
    exact pieces_intercalate (h.ne_nil (pieces_ne_nil '\n' text.toList))
      (h.not_mem fun l hl => not_mem_of_mem_pieces hl)
  rw [ofText, hlines, flatMap_ofLine_of_respaced h, ← ofText]

/-- The commands of a text are those of its lines, whatever the line ends, blank lines and blanks
around the lines. -/
theorem ofText_line_by_line :
    (∀ a b : String, (ofText (a ++ "\n" ++ b) : List (Command α)) = ofText a ++ ofText b) ∧
    (∀ (chosen : Nat → Bool) (text : String),
      (ofText (String.ofList (withReturns chosen text.toList)) : List (Command α)) = ofText text) ∧
    ∀ (text : String) (lines : List (List Char)), Respaced (pieces '\n' text.toList) lines →
      (ofText (joinLines lines) : List (Command α)) = ofText text :=
  ⟨ofText_append, ofText_withReturns, fun _ _ => ofText_joinLines⟩

/-- Two lines that are indented, with a blank line and a carriage return between them. -/
theorem ofText_line_by_line_indented :
    Respaced (pieces '\n' "N1\nHKCUT".toList) [" N1\r".toList, "\t".toList, "  HKCUT".toList] ∧
      (ofText (joinLines [" N1\r".toList, "\t".toList, "  HKCUT".toList]) : List (Command Float)) =
        [blockMarker 1, call .startCut] := by
  have hspaced : Respaced (pieces '\n' "N1\nHKCUT".toList)
      [" N1\r".toList, "\t".toList, "  HKCUT".toList] :=
    .line [' '] ['N', '1'] ['\r'] (by decide) (by decide)
      (.blankLine ['\t'] (by decide)
        (.line [' ', ' '] "HKCUT".toList [] (by decide) isSpacing_nil .nil))
  have hread : (ofText "N1\nHKCUT" : List (Command Float)) = [blockMarker 1, call .startCut] := by
    cbv
  exact ⟨hspaced, (ofText_line_by_line.2.2 "N1\nHKCUT" _ hspaced).trans hread⟩

end Command

end SheetCut
