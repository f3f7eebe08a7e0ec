import SheetCut.Decimal.Numeral
import SheetCut.Toml.Value

/-!
# TOML words

The values that are written without quotes or brackets: booleans, whole numbers, floats, dates and
times. A word is the longest row of the characters that occur in them, and it is read as a whole.
-/

namespace SheetCut.Toml

open Text

def isWordChar (c : Char) : Bool :=
  c.isAlphanum || c == '_' || c == '+' || c == '-' || c == '.' || c == ':'

/-- The digits of a row in which underscores may stand between two digits. -/
def digitRow? (isDigit : Char → Bool) : List Char → Option (List Char)
  | [] => none
  | [d] => if isDigit d then some [d] else none
  | d :: '_' :: ds => if isDigit d then (digitRow? isDigit ds).map (d :: ·) else none
  | d :: ds => if isDigit d then (digitRow? isDigit ds).map (d :: ·) else none

/-- A row of decimal digits that does not begin with a zero, except for the zero itself. -/
def wholeRow? (cs : List Char) : Option (List Char) :=
  (digitRow? isAsciiDigit cs).bind fun ds =>
    if ds.head? = some '0' ∧ cs.length ≠ 1 then none else some ds

/-- An integer that fits 64 bits with a sign. -/
def int64? (n : Int) : Option Toml :=
  if Int64.minValue.toInt ≤ n ∧ n ≤ Int64.maxValue.toInt then some (integer n) else none

def isDigitBelow (base : Nat) (c : Char) : Bool := (hexValue? c).any (· < base)

/-- The number that a row of digits writes in a base up to sixteen. -/
def numberIn? (base : Nat) (cs : List Char) : Option Nat :=
  (digitRow? (isDigitBelow base) cs).bind fun ds =>
    ds.foldlM (fun n d => (hexValue? d).map (base * n + ·)) 0

/-- A whole number: decimal with an optional sign, or hexadecimal, octal or binary without one. -/
def readInteger? : List Char → Option Toml
  | '0' :: 'x' :: cs => (numberIn? 16 cs).bind fun n => int64? n
  | '0' :: 'o' :: cs => (numberIn? 8 cs).bind fun n => int64? n
  | '0' :: 'b' :: cs => (numberIn? 2 cs).bind fun n => int64? n
  | cs =>
    let (negative, body) := takeSign cs
    (wholeRow? body).bind fun ds =>
      int64? (if negative then -(digitsValue ds : Int) else digitsValue ds)

def readExponent? (cs : List Char) : Option (Bool × List Char) :=
  let (negative, body) := takeSign cs
  (digitRow? isAsciiDigit body).map (negative, ·)

def isExponentLetter (c : Char) : Bool := c == 'e' || c == 'E'

/-- A decimal numeral with a fraction, an exponent or both. -/
def readNumeral? (cs : List Char) : Option Numeral := do
  let (negative, body) := takeSign cs
  let mantissa := body.takeWhile (!isExponentLetter ·)
  let exponent ← match body.dropWhile (!isExponentLetter ·) with
    | [] => some none
    | _ :: rest => (readExponent? rest).map some
  let whole ← wholeRow? (mantissa.takeWhile (· != '.'))
  match mantissa.dropWhile (· != '.') with
  | [] => if exponent.isSome then return ⟨negative, whole, [], exponent⟩ else none
  | _ :: rest => return ⟨negative, whole, ← digitRow? isAsciiDigit rest, exponent⟩

/-- A float: a numeral, `inf` or `nan`. One that is too large is an error, unless it is negative. -/
def readFloat? (cs : List Char) : Option Toml :=
  match readNumeral? cs with
  | some n =>
    let x : Float := n.value
    if x == Scalar.infinity then none else some (float x)
  | none =>
    let (negative, word) := takeSign cs
    let magnitude : Option Float :=
      match String.ofList word with
      | "inf" => some Scalar.infinity
      | "nan" => some (0 / 0)
      | _ => none
    magnitude.map fun x => float (if negative then -x else x)

/-- The number that exactly `size` digits write. -/
def fixedNumber? (size : Nat) (cs : List Char) : Option Nat :=
  if cs.length = size ∧ cs.all isAsciiDigit then some (digitsValue cs) else none

def isLeapYear (year : Nat) : Bool := year % 4 == 0 && (year % 100 != 0 || year % 400 == 0)

def daysIn (year month : Nat) : Nat :=
  if month = 2 then (if isLeapYear year then 29 else 28)
  else if month = 4 ∨ month = 6 ∨ month = 9 ∨ month = 11 then 30 else 31

/-- A day of the calendar, `yyyy-mm-dd`. -/
def isDate (cs : List Char) : Bool :=
  match fixedNumber? 4 (cs.take 4), fixedNumber? 2 ((cs.drop 5).take 2),
    fixedNumber? 2 (cs.drop 8) with
  | some year, some month, some day =>
    cs[4]? == some '-' && cs[7]? == some '-' && 1 ≤ month && month ≤ 12 && 1 ≤ day &&
      day ≤ daysIn year month
  | _, _, _ => false

/-- A time of day, `hh:mm:ss` with an optional fraction. The second may be a leap second. -/
def isTime (cs : List Char) : Bool :=
  let fraction := cs.drop 8
  match fixedNumber? 2 (cs.take 2), fixedNumber? 2 ((cs.drop 3).take 2),
    fixedNumber? 2 ((cs.drop 6).take 2) with
  | some hour, some minute, some second =>
    cs[2]? == some ':' && cs[5]? == some ':' && hour < 24 && minute < 60 && second ≤ 60 &&
      (fraction == [] ||
        (fraction.head? == some '.' && fraction.drop 1 != [] &&
          (fraction.drop 1).all isAsciiDigit))
  | _, _, _ => false

/-- An offset from universal time: `Z`, or a sign and `hh:mm`. -/
def isOffset (cs : List Char) : Bool :=
  cs == ['Z'] || cs == ['z'] ||
    match cs with
    | sign :: cs =>
      (sign == '+' || sign == '-') && cs[2]? == some ':' &&
        (fixedNumber? 2 (cs.take 2)).any (· < 24) && (fixedNumber? 2 (cs.drop 3)).any (· < 60)
    | [] => false

def isTimeAndOffset (cs : List Char) : Bool :=
  let time := cs.takeWhile fun c => isAsciiDigit c || c == ':' || c == '.'
  let offset := cs.drop time.length
  isTime time && (offset == [] || isOffset offset)

/-- A date, a time of day, or a date and a time with `T` between them. -/
def isMoment (cs : List Char) : Bool :=
  isTime cs || (isDate (cs.take 10) &&
    match cs.drop 10 with
    | [] => true
    | c :: time => (c == 'T' || c == 't') && isTimeAndOffset time)

def ofWord? (cs : List Char) : Option Toml :=
  if cs = "true".toList then some (bool true)
  else if cs = "false".toList then some (bool false)
  else if isMoment cs then some moment
  else (readFloat? cs).orElse fun _ => readInteger? cs

/-- The word at the head of the text and the text after it. A date may be followed by a space and a
time; the two are one word then, with the space replaced. -/
def takeWord (cs : List Char) : List Char × List Char :=
  let word := cs.takeWhile isWordChar
  let rest := cs.dropWhile isWordChar
  match rest with
  | ' ' :: c :: more =>
    if isDate word && isAsciiDigit c then
      (word ++ 'T' :: (c :: more).takeWhile isWordChar, (c :: more).dropWhile isWordChar)
    else (word, rest)
  | _ => (word, rest)

end SheetCut.Toml
