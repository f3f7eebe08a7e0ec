import SheetCut.Decimal.Numeral
import SheetCut.Pattern.Reader
import SheetCut.Text.Piece

/-!
# Log filters

The level in the settings is a filter for log output: directives with commas between them, such as
`info` or `cutter[span]=debug`. Here it is only decided whether a filter is well formed.

Offsets into a directive count bytes from its first character that is not blank, but the parts are
cut at these offsets from the directive with its blanks. So a part may begin or end inside a
character, and then the filter cannot even be refused.
-/

namespace SheetCut.LogFilter

open Text

inductive Fault where
  | malformed
  /-- A part begins or ends inside a character. -/
  | cut
  deriving DecidableEq

/-- The text from a byte offset on. -/
def partFrom (text : List Char) (start : Nat) : Except Fault (List Char) :=
  match splitBytes? start text with
  | some (_, rest) => .ok rest
  | none => .error .cut

def part (text : List Char) (start stop : Nat) : Except Fault (List Char) := do
  match splitBytes? (stop - start) (← partFrom text start) with
  | some (inner, _) => return inner
  | none => throw .cut

def require (b : Bool) : Except Fault Unit := if b then .ok () else .error .malformed

def levelNames : List String := ["error", "warn", "info", "debug", "trace", "off"]

/-- A level: nothing, a number up to five, or a name in any case. -/
def isLevel (text : List Char) : Bool :=
  let ds := if text.head? = some '+' then text.drop 1 else text
  text == [] || (ds != [] && ds.all isAsciiDigit && digitsValue ds ≤ 5) ||
    levelNames.contains (String.ofList (text.map Char.toLower))

/-- The value of a field: a truth value, a number or a search pattern. -/
def isValue (text : List Char) : Bool :=
  text == "true".toList || text == "false".toList || (strictFloat? text).isSome ||
    Pattern.isPattern text

/-- What stands between braces: a name, and perhaps a value behind an equals sign. -/
def isField (text : List Char) : Bool :=
  text != [] &&
    match pieces '=' text with
    | _ :: value :: _ => isValue value
    | _ => true

/-- Where in a directive a character stands. A part that is still to be cut has the offset at which
it begins. -/
inductive Position where
  | start
  /-- The level, or the target of what follows; it begins at offset 0. -/
  | levelOrTarget
  | span (start : Nat)
  /-- Between braces. -/
  | field (start : Nat)
  | fields
  | target
  /-- Behind the equals sign. -/
  | level (start : Nat)

/-- A directive without brackets may begin with this character. -/
def isFirst (c : Char) : Bool := isAlphanumeric c || c == '-' || c == ':' || c == '_'

/-- The position behind the character `c` at offset `i` of the directive `text`. -/
def Position.next (text : List Char) (i : Nat) : Position → Char → Except Fault Position
  | start, c => do
    if c = '[' then return span (i + 1)
    require (isFirst c)
    return levelOrTarget
  | levelOrTarget, c => do
    if c = '=' ∨ c = '[' then
      let _ ← part text 0 i
      return if c = '=' then level (i + 1) else span (i + 1)
    else return levelOrTarget
  | span k, c => do
    if c = ']' ∨ c = '\x7b' then
      let _ ← part text k i
      return if c = ']' then target else field (i + 1)
    else return span k
  | field k, c => do
    if c = '\x7d' then
      require (isField (← part text k i))
      return fields
    else return field k
  | fields, c => do
    require (c == ']')
    return target
  | target, c => do
    require (c == '=')
    return level (i + 1)
  | level k, _ => return level k

def Position.run (text : List Char) : Nat → Position → List Char → Except Fault Position
  | _, p, [] => return p
  | i, p, c :: cs => do run text (i + c.utf8Size) (← p.next text i c) cs

/-- Whether a directive may end at a position. -/
def Position.close (text : List Char) : Position → Except Fault Unit
  | levelOrTarget => return
  | target => return
  | level k => do require (isLevel (← partFrom text k))
  | _ => .error .malformed

def checkDirective (text : List Char) : Except Fault Unit := do
  (← Position.run text 0 .start (trim text)).close text

/-- Looks for the first fault of a filter. Nothing between two commas is no directive. -/
def check (filter : String) : Except Fault Unit :=
  ((pieces ',' filter.toList).filter (· ≠ [])).forM checkDirective

end SheetCut.LogFilter
