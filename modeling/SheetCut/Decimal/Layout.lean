import SheetCut.Decimal.Shortest

/-!
# Texts of floats

How a float is written: with its shortest digits in a given layout, with a fixed number of decimal
places, or with one digit before the point and an exponent.
-/

namespace SheetCut.Decimal

open Float.Model

/- Powers of natural numbers are those of the core library. -/
attribute [local instance (2000)] instPowNat

/-- The decisions of a format that writes shortest digits. -/
structure Layout where
  tie : Tie
  /-- A whole number is written with `.0`. -/
  wholePoint : Bool
  /-- Whether a number with this many digits before the point is written without an exponent. -/
  positional : Int → Bool
  /-- A plus sign stands before an exponent that is not negative. -/
  exponentPlus : Bool
  infinity : String
  notANumber : String

/-- Texts and messages: no exponent, no point in a whole number. -/
def plain : Layout where
  tie := .up
  wholePoint := false
  positional := fun _ => true
  exponentPlus := false
  infinity := "inf"
  notANumber := "NaN"

def digits (n : Nat) : List Char := Nat.toDigits 10 n

def zeros (n : Nat) : List Char := List.replicate n '0'

/-- The number `n * 10 ^ d` without an exponent. -/
def positionalDigits (wholePoint : Bool) (n : Nat) (d : Int) : List Char :=
  let ds := digits n
  let before : Int := ds.length + d
  if 0 ≤ d then ds ++ zeros d.toNat ++ (if wholePoint then ['.', '0'] else [])
  else if 0 < before then ds.take before.toNat ++ '.' :: ds.drop before.toNat
  else '0' :: '.' :: (zeros (-before).toNat ++ ds)

/-- The number `n * 10 ^ d` with one digit before the point and an exponent. -/
def exponentDigits (plus : Bool) (n : Nat) (d : Int) : List Char :=
  let ds := digits n
  let fraction := ds.drop 1
  let point := if fraction = [] then [] else '.' :: fraction
  let exponent : Int := ds.length + d - 1
  let sign := if plus && 0 ≤ exponent then ['+'] else []
  ds.take 1 ++ point ++ 'e' :: (sign ++ (toString exponent).toList)

def signText : UnpackedFloat.Sign → String
  | .negative => "-"
  | .positive => ""

namespace Layout

def finiteText (l : Layout) (m : Nat) (e : Int) : String :=
  let (n, d) := shortest l.tie m e
  if l.positional ((digits n).length + d) then String.ofList (positionalDigits l.wholePoint n d)
  else String.ofList (exponentDigits l.exponentPlus n d)

def text (l : Layout) (x : Float) : String :=
  match Binary64.unpack x with
  | .notANumber => l.notANumber
  | .infinity s => signText s ++ l.infinity
  | .zero s => signText s ++ (if l.wholePoint then "0.0" else "0")
  | .finite s m e _ => signText s ++ l.finiteText m e

end Layout

/-- The whole number nearest to `num / den`, a half going to the even neighbour. -/
def roundHalfEven (num den : Nat) : Nat :=
  let q := num / den
  let r := num % den
  if 2 * r < den then q else if den < 2 * r then q + 1 else q + q % 2

/-- The value `m * 2 ^ e`, in multiples of `10 ^ (-places)`, rounded to a whole number. -/
def scaled (places : Int) (m : Nat) (e : Int) : Nat :=
  roundHalfEven (m * 2 ^ e.toNat * 10 ^ places.toNat) (2 ^ (-e).toNat * 10 ^ (-places).toNat)

/-- The number `n * 10 ^ (-places)` with all its decimal places, trailing zeros too. -/
def placedDigits (places n : Nat) : List Char :=
  let ds := digits n
  let ds := zeros (places + 1 - ds.length) ++ ds
  let whole := ds.length - places
  ds.take whole ++ (if places = 0 then [] else '.' :: ds.drop whole)

/-- The exact value rounded to `places` decimal places. A negative number keeps its sign also where
it rounds to zero. -/
def fixed (places : Nat) (x : Float) : String :=
  match Binary64.unpack x with
  | .notANumber => plain.notANumber
  | .infinity s => signText s ++ plain.infinity
  | .zero s => signText s ++ String.ofList (placedDigits places 0)
  | .finite s m e _ => signText s ++ String.ofList (placedDigits places (scaled places m e))

/-- One digit before the point, `places` behind it, and the exponent. -/
def scientific (places : Nat) (x : Float) : String :=
  match Binary64.unpack x with
  | .notANumber => plain.notANumber
  | .infinity s => signText s ++ plain.infinity
  | .zero s => signText s ++ String.ofList (placedDigits places 0) ++ "e0"
  | .finite s m e _ =>
    let lead := leadingExponent (m * 2 ^ e.toNat) (2 ^ (-e).toNat)
    let n := scaled (places - lead) m e
    let (n, lead) := if n = 10 ^ (places + 1) then (10 ^ places, lead + 1) else (n, lead)
    signText s ++ String.ofList (placedDigits places n) ++ "e" ++ toString lead

end SheetCut.Decimal
