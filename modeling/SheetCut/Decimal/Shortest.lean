import SheetCut.Binary64

/-!
# Shortest decimals

The decimal of fewest digits that reads back as a given float: the first grid of powers of ten, from
coarse to fine, that has a point in the interval of numbers rounding to the float, and of its points
the one nearest to the float.
-/

namespace SheetCut.Decimal

/- Powers of natural numbers are those of the core library. -/
attribute [local instance (2000)] instPowNat

/-- Where an exact half goes. -/
inductive Tie where
  | up
  | even

/-- The number of decimal digits of `n`; 1 for zero. -/
def digitCount (n : Nat) : Nat := (Nat.toDigits 10 n).length

/-- The exponent of the leading decimal digit of `num / den`, for positive `num` and `den`. -/
def leadingExponent (num den : Nat) : Int :=
  if den ≤ num then digitCount (num / den) - 1 else -digitCount ((den - 1) / num)

/-- The numbers that round to `m * 2 ^ e`, with their two ends and middle in quarters of
`2 ^ e`. The lower end is nearer where the float below has a smaller exponent, and the ends belong
to the interval when `m` is even. -/
structure RoundingInterval where
  low : Nat
  middle : Nat
  high : Nat
  closed : Bool
  exponent : Int

def RoundingInterval.ofFloat (m : Nat) (e : Int) : RoundingInterval where
  low := 4 * m - (if m = 1 <<< 52 ∧ -1074 < e then 1 else 2)
  middle := 4 * m
  high := 4 * m + 2
  closed := m % 2 = 0
  exponent := e - 2

namespace RoundingInterval

/-- One step of the grid `10 ^ d`, and one of the interval's units, over a common denominator. -/
def scales (i : RoundingInterval) (d : Int) : Nat × Nat :=
  (10 ^ d.toNat * 2 ^ (-i.exponent).toNat, 2 ^ i.exponent.toNat * 10 ^ (-d).toNat)

def contains (i : RoundingInterval) (d : Int) (g : Nat) : Bool :=
  let (step, unit) := i.scales d
  if i.closed then i.low * unit ≤ g * step && g * step ≤ i.high * unit
  else i.low * unit < g * step && g * step < i.high * unit

/-- The point of the grid `10 ^ d` that is in the interval and nearest to its middle. -/
def nearest? (i : RoundingInterval) (tie : Tie) (d : Int) : Option Nat :=
  let (step, unit) := i.scales d
  let g := i.middle * unit / step
  let r := i.middle * unit % step
  match i.contains d g, i.contains d (g + 1) with
  | false, false => none
  | true, false => some g
  | false, true => some (g + 1)
  | true, true =>
    if 2 * r < step then some g
    else if step < 2 * r then some (g + 1)
    else match tie with
      | .up => some (g + 1)
      | .even => some (g + g % 2)

/-- Goes through `grids` grids, from `10 ^ d` to finer ones. -/
def search (i : RoundingInterval) (tie : Tie) : Nat → Int → Nat × Int
  | 0, d => (0, d)
  | grids + 1, d =>
    match i.nearest? tie d with
    | some g => (g, d)
    | none => i.search tie grids (d - 1)

end RoundingInterval

/-- Moves the trailing zeros of `n` into the exponent. -/
def stripZeros (n : Nat) (d : Int) : Nat × Int :=
  if n = 0 then (0, d)
  else if n % 10 = 0 then stripZeros (n / 10) (d + 1)
  else (n, d)
termination_by n
decreasing_by omega

/-- Digits and exponent of the shortest decimal that reads back as `m * 2 ^ e`. Twenty grids always
suffice, as seventeen digits tell any two floats apart. -/
def shortest (tie : Tie) (m : Nat) (e : Int) : Nat × Int :=
  let lead := leadingExponent (m * 2 ^ e.toNat) (2 ^ (-e).toNat)
  let (n, d) := (RoundingInterval.ofFloat m e).search tie 20 (lead + 1)
  stripZeros n d

end SheetCut.Decimal
