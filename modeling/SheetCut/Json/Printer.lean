import SheetCut.Decimal.Layout
import SheetCut.Json.Value

/-!
# Printing JSON

Compact text, and text with one member or item to a line.
-/

namespace SheetCut.Json

/-- Numbers always show a point or an exponent. They are positional from `1e-5` up to `1e+16`. -/
def numberLayout : Decimal.Layout where
  tie := .even
  wholePoint := true
  positional := fun before => -5 < before && before ≤ 16
  exponentPlus := true
  infinity := "null"
  notANumber := "null"

def hexDigit (n : Nat) : Char := if n < 10 then Char.ofNat (48 + n) else Char.ofNat (87 + n)

/-- A character inside a string. Besides the quote and the backslash only control characters below
the space are escaped. -/
def escape (c : Char) : List Char :=
  match c with
  | '"' => ['\\', '"']
  | '\\' => ['\\', '\\']
  | '\n' => ['\\', 'n']
  | '\r' => ['\\', 'r']
  | '\t' => ['\\', 't']
  | c =>
    if c.toNat = 8 then ['\\', 'b']
    else if c.toNat = 12 then ['\\', 'f']
    else if c.toNat < 0x20 then
      ['\\', 'u', '0', '0', hexDigit (c.toNat / 16), hexDigit (c.toNat % 16)]
    else [c]

def quoted (s : String) : String :=
  String.ofList ('"' :: s.toList.flatMap escape ++ ['"'])

def atom : Json → String
  | null => "null"
  | bool true => "true"
  | bool false => "false"
  | integer n => toString n
  | number x => if x.isFinite then numberLayout.text x else "null"
  | string s => quoted s
  | array _ => "[]"
  | object _ => "\x7b\x7d"
  | unreadable => "null"

def separator (line : Option String) : String := if line.isSome then ": " else ":"

mutual

/-- The text of a value with `line` in front of every inner line; compact if there is no `line`. -/
def print (line : Option String) : Json → String
  | array (item :: items) =>
    let inner := line.map (· ++ "  ")
    "[" ++ inner.getD "" ++ print inner item ++ printItems inner items ++ line.getD "" ++ "]"
  | object (m :: ms) =>
    let inner := line.map (· ++ "  ")
    "\x7b" ++ inner.getD "" ++ quoted m.1 ++ separator line ++ print inner m.2 ++
      printMembers inner ms ++ line.getD "" ++ "\x7d"
  | j => atom j

def printItems (line : Option String) : List Json → String
  | [] => ""
  | item :: items => "," ++ line.getD "" ++ print line item ++ printItems line items

def printMembers (line : Option String) : List (String × Json) → String
  | [] => ""
  | m :: ms =>
    "," ++ line.getD "" ++ quoted m.1 ++ separator line ++ print line m.2 ++ printMembers line ms

end

def compact (j : Json) : String := j.print none

/-- The text with two spaces of indent to a level. -/
def pretty (j : Json) : String := j.print (some "\n")

end SheetCut.Json
