import SheetCut.Pattern.Set
import SheetCut.Text.Alphanumeric

/-!
# Search patterns

Which texts are search patterns: `isPattern` reads a text part by part. Nothing is built from it but
the heights of the parts, because they must not stand too deep in each other.
-/

namespace SheetCut.Pattern

open Text

/-- A row of parts between the bars and parentheses around it. -/
structure Row where
  mode : Mode
  /-- The heights of the alternatives that a bar has ended. -/
  choices : List Nat
  /-- The heights of the parts behind the last bar, the last part first. Flags have none. -/
  parts : List (Option Nat)

namespace Row

def start (m : Mode) : Row := ⟨m, [], []⟩

def add (r : Row) (height : Nat) : Row := { r with parts := some height :: r.parts }

def setFlags (r : Row) (flags : List Char) : Row :=
  { r with mode := r.mode.set flags, parts := none :: r.parts }

def lastHeight (r : Row) : Nat := rowHeight (r.parts.map fun h => h.getD 0)

def choose (r : Row) : Row := { r with choices := r.lastHeight :: r.choices, parts := [] }

def height (r : Row) : Nat := rowHeight (r.lastHeight :: r.choices)

/-- The row with its last part repeated. -/
def repeat? (r : Row) : Option Row :=
  match r.parts with
  | some height :: parts => some { r with parts := some (height + 1) :: parts }
  | _ => none

end Row

structure Reading where
  /-- The names of groups. -/
  names : List (List Char)
  row : Row
  /-- The rows around the open groups, the innermost first. -/
  outer : List Row

namespace Reading

def start : Reading := ⟨[], .start .initial, []⟩

def mode (r : Reading) : Mode := r.row.mode

def add (r : Reading) (height : Nat) : Reading := { r with row := r.row.add height }

def enter (r : Reading) (m : Mode) : Reading :=
  { r with row := .start m, outer := r.row :: r.outer }

def isNameHead (c : Char) : Bool := c == '_' || isLetter c

def isNameTail (c : Char) : Bool :=
  c == '_' || c == '.' || c == '[' || c == ']' || isAlphanumeric c

def isName : List Char → Bool
  | [] => false
  | c :: cs => isNameHead c && cs.all isNameTail

/-- The inside of a group with a name that no other group has. -/
def enterNamed? (r : Reading) (cs : List Char) : Option (Reading × List Char) :=
  let name := cs.takeWhile (· != '>')
  match cs.drop name.length with
  | _ :: rest =>
    if isName name && !r.names.contains name then
      some ({ r.enter r.mode with names := name :: r.names }, rest)
    else none
  | [] => none

/-- What an opening parenthesis begins: a group, with or without a name, or flags for the row. -/
def openGroup? (r : Reading) (cs : List Char) : Option (Reading × List Char) :=
  match r.mode.skip cs with
  | '?' :: 'P' :: '<' :: rest => r.enterNamed? rest
  | '?' :: '<' :: rest => r.enterNamed? rest
  | '?' :: rest => do
    let (flags, stop, rest) ← readFlags? rest
    if stop = ':' then return (r.enter (r.mode.set flags), rest)
    else if flags = [] then none
    else return ({ r with row := r.row.setFlags flags }, rest)
  | rest => some (r.enter r.mode, rest)

/-- The row around a group, with the group as its last part. -/
def closeGroup? (r : Reading) : Option Reading :=
  match r.outer with
  | row :: outer => some { r with row := row.add (r.row.height + 1), outer := outer }
  | [] => none

/-- The text behind the question mark that makes a repetition short, or behind none. -/
def dropLazy : List Char → List Char
  | '?' :: rest => rest
  | rest => rest

/-- One part, bar or parenthesis more. Repetitions with counts in braces are not known. -/
def step? (r : Reading) : Char → List Char → Option (Reading × List Char)
  | '(', rest => r.openGroup? rest
  | ')', rest => r.closeGroup?.map fun r => (r, rest)
  | '|', rest => some ({ r with row := r.row.choose }, rest)
  | '[', rest => do
    let (height, rest) ← readSet? r.mode (rest.length + 1) .empty (← readCaret? r.mode rest)
    return (r.add height, rest)
  | '\\', rest => (readEscape? r.mode rest).map fun (_, rest) => (r.add 0, rest)
  | '\x7b', _ => none
  | '.', rest => if r.mode.unicode then some (r.add 0, rest) else none
  | c, rest =>
    if ['?', '*', '+'].contains c then
      r.row.repeat?.map fun row => ({ r with row := row }, dropLazy rest)
    else some (r.add 0, rest)

/-- The end of the text, where all groups are closed. -/
def readAll? : Nat → Reading → List Char → Option Reading
  | 0, _, _ => none
  | fuel + 1, r, cs =>
    match r.mode.skip cs with
    | [] => if r.outer.isEmpty then some r else none
    | c :: rest => (r.step? c rest).bind fun (r, rest) => readAll? fuel r rest

end Reading

/-- How deep parts may stand in each other. -/
def maxHeight : Nat := 250

def isPattern (text : List Char) : Bool :=
  (Reading.readAll? (text.length + 1) .start text).any fun r => r.row.height ≤ maxHeight

end SheetCut.Pattern
