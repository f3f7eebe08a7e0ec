import SheetCut.Pattern.Mode
import SheetCut.Text.Digit

/-!
# Atoms of search patterns

Single characters and what a backslash makes of the characters behind it.
-/

namespace SheetCut.Pattern

open Text

/-- What a single character or an escape stands for. -/
inductive Atom where
  | literal (c : Char)
  /-- One of several characters, such as a digit. -/
  | kind
  /-- A place in the text, such as its end. -/
  | place

/-- Digits of a character's number, as many as are asked for. -/
def readHex? (m : Mode) : Nat → Nat → List Char → Option (Nat × List Char)
  | 0, n, cs => some (n, cs)
  | count + 1, n, cs =>
    match m.skip cs with
    | c :: rest => (hexValue? c).bind fun d => readHex? m count (16 * n + d) rest
    | [] => none

/-- The character with the two digits that are written next, a byte of ASCII if it is about bytes. -/
def readByte? (m : Mode) (cs : List Char) : Option (Atom × List Char) :=
  (readHex? m 2 0 cs).bind fun (n, rest) =>
    if m.unicode || n < 128 then some (.literal (Char.ofNat n), rest) else none

def readCoded? (m : Mode) (count : Nat) (cs : List Char) : Option (Atom × List Char) :=
  (readHex? m count 0 cs).bind fun (n, rest) =>
    if n.isValidChar then some (.literal (Char.ofNat n), rest) else none

def categoryLetters : List Char := ['c', 'l', 'm', 'n', 'p', 's', 'z']

def readCategory? (m : Mode) (cs : List Char) : Option (Atom × List Char) :=
  match m.skip cs with
  | c :: rest =>
    if m.unicode && categoryLetters.contains c.toLower then some (.kind, rest) else none
  | [] => none

def controlCode? : Char → Option Nat
  | 'a' => some 7
  | 't' => some 9
  | 'n' => some 10
  | 'v' => some 11
  | 'f' => some 12
  | 'r' => some 13
  | _ => none

/-- A character that a backslash leaves as it is. -/
def isEscapable (c : Char) : Bool := c.toNat < 128 && !c.isAlphanum && c != '<' && c != '>'

/-- An escape, from the character behind its backslash. The complement of a kind and a byte beyond
ASCII need characters; the edges of words can only be found in bytes. -/
def readEscape? (m : Mode) : List Char → Option (Atom × List Char)
  | [] => none
  | c :: rest =>
    if ['d', 's', 'w'].contains c then some (.kind, rest)
    else if ['D', 'S', 'W'].contains c then (if m.unicode then some (.kind, rest) else none)
    else if c = 'p' ∨ c = 'P' then readCategory? m rest
    else if c = 'x' then readByte? m rest
    else if c = 'u' then readCoded? m 4 rest
    else if c = 'U' then readCoded? m 8 rest
    else if c = 'A' ∨ c = 'z' then some (.place, rest)
    else if ['b', 'B', '<', '>'].contains c then
      (if m.unicode then none else some (.place, rest))
    else match controlCode? c with
      | some n => some (.literal (Char.ofNat n), rest)
      | none => if isEscapable c then some (.literal c, rest) else none

end SheetCut.Pattern
