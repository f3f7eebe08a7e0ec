import SheetCut.Text.Blank

/-!
# Modes of search patterns

Flags in a pattern such as `(?x-u)` change how the rest of the enclosing group is read. Two of them
matter for whether a pattern is well formed.
-/

namespace SheetCut.Pattern

open Text

structure Mode where
  /-- Blanks and comments between the parts do not count. -/
  spaced : Bool
  /-- The pattern is about characters and not about bytes. -/
  unicode : Bool

def Mode.initial : Mode := ⟨false, true⟩

/-- The text behind blanks and comments. A comment goes from `#` to the end of its line; `comment`
says that the text begins inside one. -/
def skipSpaced : Bool → List Char → List Char
  | _, [] => []
  | true, c :: cs => skipSpaced (c != '\n') cs
  | false, c :: cs =>
    if isBlank c then skipSpaced false cs
    else if c = '#' then skipSpaced true cs
    else c :: cs

namespace Mode

/-- The text from its first character that counts. -/
def skip (m : Mode) (cs : List Char) : List Char := if m.spaced then skipSpaced false cs else cs

/-- What stands behind a dash. Of a comment only the `#` is passed over here, and where nothing but
blanks follows the first of them is meant. -/
def peek? (m : Mode) (cs : List Char) : Option Char :=
  if m.spaced then
    match cs.dropWhile isBlank with
    | '#' :: rest => (rest.dropWhile isBlank).head? <|> cs.head?
    | rest => rest.head? <|> cs.head?
  else cs.head?

end Mode

def flagLetters : List Char := ['i', 'm', 's', 'U', 'u', 'R', 'x']

/-- Flags, none of them twice; those behind a dash are taken away. -/
def isFlags (flags : List Char) : Bool :=
  flags.all (fun c => c == '-' || flagLetters.contains c) && decide flags.Nodup &&
    flags.getLast? != some '-'

/-- What flags say about one of them, if they name it. -/
def flagState? (flags : List Char) (letter : Char) : Option Bool :=
  if flags.contains letter then some ((flags.takeWhile (· != '-')).contains letter) else none

def Mode.set (m : Mode) (flags : List Char) : Mode :=
  ⟨(flagState? flags 'x').getD m.spaced, (flagState? flags 'u').getD m.unicode⟩

/-- Flags up to the colon or the parenthesis that ends them. -/
def readFlags? (cs : List Char) : Option (List Char × Char × List Char) :=
  let flags := cs.takeWhile fun c => c != ':' && c != ')'
  match cs.drop flags.length with
  | stop :: rest => if isFlags flags then some (flags, stop, rest) else none
  | [] => none

end SheetCut.Pattern
