import SheetCut.Scalar
import SheetCut.Text.Blank
import SheetCut.Text.Digit

/-!
# Decimal numerals

Numerals of the form `sign? (D+ '.'? D* | '.' D+) ([eE] sign? D+)?`. `Numeral.read?` takes the
longest one that a text begins with. A digit may be of any script, but only a numeral of ASCII
digits has a value.
-/

namespace SheetCut

open Text

/-- The parts of a numeral. The exponent's flag says that it is negative. -/
structure Numeral where
  negative : Bool
  whole : List Char
  fraction : List Char
  exponent : Option (Bool × List Char)

namespace Numeral

/-- The exponent part at the head of a text, if there is one, and the text after it. -/
def readExponent (cs : List Char) : Option (Bool × List Char) × List Char :=
  match cs with
  | c :: rest =>
    let (negative, body) := takeSign rest
    if (c = 'e' ∨ c = 'E') ∧ body.takeWhile isDigit ≠ [] then
      (some (negative, body.takeWhile isDigit), body.dropWhile isDigit)
    else (none, cs)
  | [] => (none, cs)

/-- The digits before the point, those after it, and the text after them. -/
def readMantissa? (cs : List Char) : Option (List Char × List Char × List Char) :=
  let whole := cs.takeWhile isDigit
  match cs.dropWhile isDigit with
  | '.' :: rest =>
    let fraction := rest.takeWhile isDigit
    if whole = [] ∧ fraction = [] then none else some (whole, fraction, rest.dropWhile isDigit)
  | rest => if whole = [] then none else some (whole, [], rest)

/-- The longest numeral at the head of a text, and the text after it. -/
def read? (cs : List Char) : Option (Numeral × List Char) :=
  let (negative, body) := takeSign cs
  match readMantissa? body with
  | none => none
  | some (whole, fraction, afterMantissa) =>
    let (exponent, rest) := readExponent afterMantissa
    some (⟨negative, whole, fraction, exponent⟩, rest)

/-- All digits are ASCII, so the numeral has a value. -/
def isAscii (n : Numeral) : Bool :=
  (n.whole ++ n.fraction ++ (n.exponent.map Prod.snd).getD []).all isAsciiDigit

def power (n : Numeral) : Int :=
  match n.exponent with
  | none => 0
  | some (true, ds) => -(digitsValue ds : Int)
  | some (false, ds) => digitsValue ds

/-- The scalar nearest to the number that the numeral writes. -/
def value {α : Type} [Scalar α] (n : Numeral) : α :=
  let magnitude : α :=
    Scalar.ofDecimal (digitsValue (n.whole ++ n.fraction)) (n.power - n.fraction.length)
  if n.negative then -magnitude else magnitude

end Numeral

/-- The value of the longest numeral at the head of the trimmed text; 0 where there is none, and
where it holds a digit that is not ASCII. What follows the numeral is ignored. -/
def lenientNumber {α : Type} [Scalar α] (text : List Char) : α :=
  match Numeral.read? (trim text) with
  | some (n, _) => if n.isAscii then n.value else 0
  | none => 0

/-- Reads a whole text as a float: an ASCII numeral, or `inf`, `infinity` or `nan` in any case
after an optional sign. No blanks are allowed. -/
def strictFloat? (text : List Char) : Option Float :=
  match Numeral.read? text with
  | some (n, []) => if n.isAscii then some n.value else none
  | some _ => none
  | none =>
    let (negative, word) := takeSign text
    let magnitude : Option Float :=
      match String.ofList (word.map Char.toLower) with
      | "inf" => some Scalar.infinity
      | "infinity" => some Scalar.infinity
      | "nan" => some (0 / 0)
      | _ => none
    magnitude.map fun x => if negative then -x else x

end SheetCut
