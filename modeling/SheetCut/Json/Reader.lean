import SheetCut.Json.Value
import SheetCut.Text.Digit

/-!
# Reading JSON

A strict reader: one value, nothing but the four blanks around its parts, no comma before a closing
bracket. A string with a lone surrogate, a number that is too large for a float, an object that
has such a string for a name and brackets inside too many others are unreadable parts of the
document.
-/

namespace SheetCut.Json

open Text

def isSpace (c : Char) : Bool := c == ' ' || c == '\n' || c == '\t' || c == '\r'

def skipSpace (cs : List Char) : List Char := cs.dropWhile isSpace

/-- A character of a string, or one unit of UTF-16 that an escape names. -/
inductive StringUnit where
  | char (c : Char)
  | unit (n : Nat)

def simpleEscape? : Char → Option Char
  | '"' => some '"'
  | '\\' => some '\\'
  | '/' => some '/'
  | 'b' => some (Char.ofNat 8)
  | 'f' => some (Char.ofNat 12)
  | 'n' => some '\n'
  | 'r' => some '\r'
  | 't' => some '\t'
  | _ => none

/-- The inside of a string up to its closing quote, and the text after that. -/
def readUnits : List Char → Option (List StringUnit × List Char)
  | '"' :: rest => some ([], rest)
  | '\\' :: 'u' :: a :: b :: c :: d :: rest => do
    let n ← hexNumber? [a, b, c, d]
    let (units, rest) ← readUnits rest
    return (.unit n :: units, rest)
  | '\\' :: c :: rest => do
    let c ← simpleEscape? c
    let (units, rest) ← readUnits rest
    return (.char c :: units, rest)
  | c :: rest =>
    if c.toNat < 0x20 then none
    else do
      let (units, rest) ← readUnits rest
      return (.char c :: units, rest)
  | [] => none

def isHighSurrogate (n : Nat) : Bool := 0xD800 ≤ n && n < 0xDC00

def isLowSurrogate (n : Nat) : Bool := 0xDC00 ≤ n && n < 0xE000

/-- Joins surrogate pairs; a surrogate on its own stands for nothing. -/
def joinUnits : List StringUnit → Option (List Char)
  | [] => some []
  | .char c :: rest => (joinUnits rest).map (c :: ·)
  | .unit high :: .unit low :: rest =>
    if isHighSurrogate high then
      if isLowSurrogate low then
        let code := 0x10000 + (high - 0xD800) * 0x400 + (low - 0xDC00)
        (joinUnits rest).map (Char.ofNat code :: ·)
      else none
    else if isLowSurrogate high then none
    else (joinUnits (.unit low :: rest)).map (Char.ofNat high :: ·)
  | .unit n :: rest =>
    if isHighSurrogate n || isLowSurrogate n then none
    else (joinUnits rest).map (Char.ofNat n :: ·)

/-- The string after its opening quote, if its surrogates are paired. -/
def readString? (cs : List Char) : Option (Option String × List Char) :=
  (readUnits cs).map fun (units, rest) => ((joinUnits units).map String.ofList, rest)

/-- Takes digits into a significand of 64 bits while they fit. Gives the significand, the number of
digits taken, and the digits left. -/
def takeFitting (n : Nat) : List Char → Nat × Nat × List Char
  | [] => (n, 0, [])
  | d :: ds =>
    let next := 10 * n + digitValue d
    if next < UInt64.size then
      let (m, count, rest) := takeFitting next ds
      (m, count + 1, rest)
    else (n, 0, d :: ds)

def powerOfTen (k : Nat) : Float := Float.ofScientific 1 false k

/-- Divides by `10 ^ k`, in steps whose powers are floats. -/
def scaleDown (x : Float) (k : Nat) : Float :=
  if k ≤ 308 then x / powerOfTen k
  else if x == 0 then x
  else scaleDown (x / powerOfTen 308) (k - 308)
termination_by k
decreasing_by omega

/-- The float for a 64-bit significand and a power of ten. The significand is rounded first and the
scaled number once more; there is none for a number beyond the largest float. -/
def scaled? (significand : Nat) (power : Int) : Option Float :=
  let x := Float.ofNat significand
  if power < 0 then some (scaleDown x (-power).toNat)
  else if power ≤ 308 then
    let y := x * powerOfTen power.toNat
    if y.isFinite then some y else none
  else if significand = 0 then some x
  else none

/-- The exponent of a number: nothing, or `e` with an optional sign and at least one digit. -/
def readPower? (cs : List Char) : Option (Option Int × List Char) :=
  match cs with
  | c :: rest =>
    if c = 'e' ∨ c = 'E' then
      let (negative, body) := takeSign rest
      let ds := body.takeWhile isAsciiDigit
      let n : Int := digitsValue ds
      if ds = [] then none
      else some (some (if negative then -n else n), body.dropWhile isAsciiDigit)
    else some (none, cs)
  | [] => some (none, cs)

/-- The fraction of a number: nothing, or a point and at least one digit. -/
def readFraction? (cs : List Char) : Option (Option (List Char) × List Char) :=
  match cs with
  | '.' :: rest =>
    let ds := rest.takeWhile isAsciiDigit
    if ds = [] then none else some (some ds, rest.dropWhile isAsciiDigit)
  | cs => some (none, cs)

def negateIf (negative : Bool) (x : Float) : Float := if negative then -x else x

/-- The value of a number. Without fraction and exponent it is whole if it fits 64 bits, except that
`-0` is the negative zero. Digits that do not fit the significand only count for the power. -/
def numberOf (negative : Bool) (whole : List Char) (fraction : Option (List Char))
    (power : Option Int) : Json :=
  let (n, _, dropped) := takeFitting 0 whole
  if fraction.isNone && power.isNone && dropped.isEmpty then
    if !negative then integer n
    else if n = 0 ∨ -(n : Int) < Int64.minValue.toInt then number (-Float.ofNat n)
    else integer (-(n : Int))
  else
    let (n, count, _) := takeFitting n (fraction.getD [])
    let power := (dropped.length : Int) - count + power.getD 0
    (scaled? n power).elim unreadable fun x => number (negateIf negative x)

/-- The digits before the point: a zero alone, or a row that does not begin with one. -/
def readWhole? (cs : List Char) : Option (List Char × List Char) :=
  match cs with
  | '0' :: rest => if rest.head?.any isAsciiDigit then none else some (['0'], rest)
  | cs =>
    let ds := cs.takeWhile isAsciiDigit
    if ds = [] then none else some (ds, cs.dropWhile isAsciiDigit)

def readNumber? (cs : List Char) : Option (Json × List Char) := do
  let (negative, body) := match cs with
    | '-' :: rest => (true, rest)
    | cs => (false, cs)
  let (whole, rest) ← readWhole? body
  let (fraction, rest) ← readFraction? rest
  let (power, rest) ← readPower? rest
  return (numberOf negative whole fraction power, rest)

def dropWord? : List Char → List Char → Option (List Char)
  | [], cs => some cs
  | w :: ws, c :: cs => if w = c then dropWord? ws cs else none
  | _ :: _, [] => none

/-- How deep brackets may stand in each other. -/
def maxDepth : Nat := 127

def nested (depth : Nat) (j : Json) : Json := if depth < maxDepth then j else unreadable

mutual

/-- The value at the head of the text, which has no blanks in front, inside `depth` brackets. -/
def readValue? (depth : Nat) : Nat → List Char → Option (Json × List Char)
  | 0, _ => none
  | fuel + 1, cs =>
    match cs with
    | '"' :: rest => (readString? rest).map fun (s, rest) => (s.elim unreadable string, rest)
    | '[' :: rest =>
      match skipSpace rest with
      | ']' :: rest => some (nested depth (array []), rest)
      | rest =>
        (readItems? (depth + 1) fuel rest).map fun (items, rest) =>
          (nested depth (array items), rest)
    | '\x7b' :: rest =>
      match skipSpace rest with
      | '\x7d' :: rest => some (nested depth (object []), rest)
      | rest =>
        (readMembers? (depth + 1) fuel rest).map fun (members, rest) =>
          (nested depth (members.elim unreadable object), rest)
    | 'n' :: rest => (dropWord? "ull".toList rest).map fun rest => (null, rest)
    | 't' :: rest => (dropWord? "rue".toList rest).map fun rest => (bool true, rest)
    | 'f' :: rest => (dropWord? "alse".toList rest).map fun rest => (bool false, rest)
    | cs => readNumber? cs

/-- The items of an array up to its closing bracket, at least one. -/
def readItems? (depth : Nat) : Nat → List Char → Option (List Json × List Char)
  | 0, _ => none
  | fuel + 1, cs => do
    let (item, rest) ← readValue? depth fuel cs
    match skipSpace rest with
    | ']' :: rest => return ([item], rest)
    | ',' :: rest =>
      let (items, rest) ← readItems? depth fuel (skipSpace rest)
      return (item :: items, rest)
    | _ => none

/-- The members of an object up to its closing brace, at least one, if all names can be read. -/
def readMembers? (depth : Nat) : Nat → List Char → Option (Option (List (String × Json)) × List Char)
  | 0, _ => none
  | fuel + 1, cs =>
    match cs with
    | '"' :: rest => do
      let (name, rest) ← readString? rest
      match skipSpace rest with
      | ':' :: rest =>
        let (value, rest) ← readValue? depth fuel (skipSpace rest)
        let member := name.map fun name => (name, value)
        match skipSpace rest with
        | '\x7d' :: rest => return (member.map ([·]), rest)
        | ',' :: rest =>
          let (members, rest) ← readMembers? depth fuel (skipSpace rest)
          return (member.bind fun m => members.map (m :: ·), rest)
        | _ => none
      | _ => none
    | _ => none

end

def ofText? (text : String) : Option Json :=
  let cs := text.toList
  match readValue? 0 (2 * cs.length + 2) (skipSpace cs) with
  | some (j, rest) => if skipSpace rest = [] then some j else none
  | none => none

end SheetCut.Json
