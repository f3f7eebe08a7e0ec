import SheetCut.Command.Basic
import SheetCut.Decimal.Numeral

/-!
# Motion lines

A motion line is a mnemonic followed by words, a letter and a number each. The words are found by
their letters, so their order and the spacing between them do not matter.
-/

namespace SheetCut

open Text

namespace Motion

def mnemonic? : List Char → Option (List Char)
  | c :: cs =>
    let number := cs.takeWhile isDigit
    if (c = 'G' ∨ c = 'M') ∧ number ≠ [] then some (c :: number) else none
  | [] => none

/-- An optional sign and at least one digit or point, as many as there are. -/
def wordValue? (cs : List Char) : Option (List Char) :=
  let body := (takeSign cs).2
  let value := body.takeWhile fun c => isDigit c || c == '.'
  if value = [] then none else some (cs.take (cs.length - body.length) ++ value)

/-- The value text of the first word with this letter. A letter that no value follows is no
word. -/
def word? (letter : Char) : List Char → Option (List Char)
  | [] => none
  | c :: cs =>
    if c = letter then
      match wordValue? cs with
      | some value => some value
      | none => word? letter cs
    else word? letter cs

variable {α : Type} [Scalar α]

def word (letter : Char) (line : List Char) : Option α :=
  (word? letter line).map lenientNumber

def ofLine (line : List Char) : Motion α where
  mnemonic := String.ofList ((mnemonic? line).getD [])
  x := word 'X' line
  y := word 'Y' line
  z := word 'Z' line
  i := word 'I' line
  j := word 'J' line
  f := word 'F' line

end Motion

end SheetCut
