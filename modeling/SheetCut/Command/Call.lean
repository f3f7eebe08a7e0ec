import SheetCut.Command.Basic
import SheetCut.Decimal.Numeral
import SheetCut.Text.Piece

/-!
# Macro calls

A macro line is a name and, in parentheses, arguments between commas. Every field is read from the
argument at its own position: a missing argument is zero or the empty text, a surplus one is
ignored.
-/

namespace SheetCut

open Text

namespace MacroCall

/-- The text between the first `(` of the line and the first `)` after it. -/
def argumentText? (line : List Char) : Option (List Char) :=
  match line.dropWhile (· != '(') with
  | [] => none
  | _ :: inner => if ')' ∈ inner then some (inner.takeWhile (· != ')')) else none

/-- The trimmed arguments. Empty parentheses hold one empty argument, no parentheses none. -/
def arguments (line : List Char) : List (List Char) :=
  match argumentText? line with
  | some inner => (pieces ',' inner).map trim
  | none => []

/-- The name at the head of the line: `HK` and at least one more capital. -/
def name? : List Char → Option (List Char)
  | 'H' :: 'K' :: cs =>
    let rest := cs.takeWhile fun c => 'A' ≤ c && c ≤ 'Z'
    if rest = [] then none else some ('H' :: 'K' :: rest)
  | _ => none

variable {α : Type} [Scalar α]

def number (args : List (List Char)) (k : Nat) : α :=
  match args[k]? with
  | some arg => lenientNumber arg
  | none => 0

def code (α : Type) [Scalar α] (args : List (List Char)) (k : Nat) : Int32 :=
  Scalar.toInt32 (number args k : α)

def count (α : Type) [Scalar α] (args : List (List Char)) (k : Nat) : UInt32 :=
  Scalar.toUInt32 (number args k : α)

def quoted (args : List (List Char)) (k : Nat) : String :=
  String.ofList ((args[k]?.getD []).filter (· != '"'))

/-- The call that a name and its arguments make. The remnant marker opens a contour with four
arguments or more and marks a phase with one; with any other number it says nothing. -/
def ofArguments? (name : String) (args : List (List Char)) : Option (MacroCall α) :=
  match name with
  | "HKLDB" => some (loadDatabase ⟨code α args 0⟩ (quoted args 1) ⟨code α args 2⟩)
  | "HKINI" => some (init (count α args 0) (number args 1) (number args 2))
  | "HKOST" =>
    some (partOrigin (number args 0) (number args 1) (number args 2) (count α args 3)
      (count α args 4))
  | "HKPPP" => some partProgram
  | "HKSTR" =>
    some (contourStart ⟨code α args 0⟩ ⟨code α args 1⟩ (number args 2) (number args 3)
      (code α args 4) (number args 5) (number args 6))
  | "HKPIE" => some pierce
  | "HKLEA" =>
    some (leadIn (code α args 0) (number args 1) (number args 2) (number args 3) (number args 4))
  | "HKCUT" => some startCut
  | "HKSTO" =>
    some (contourEnd (code α args 0) (number args 1) (number args 2) (number args 3)
      (number args 4) (code α args 5))
  | "HKPED" => some partEnd
  | "HKEND" => some programEnd
  | "HKSCRC" =>
    if 4 ≤ args.length then
      some (remnantStart ⟨code α args 0⟩ (code α args 1) (number args 2) (number args 3))
    else if args.length = 1 then some (remnantPhase (code α args 0))
    else none
  | _ => none

/-- The call on a line, unless its name is unknown. -/
def ofLine? (line : List Char) : Option (MacroCall α) :=
  match name? line with
  | some name => ofArguments? (String.ofList name) (arguments line)
  | none => none

end MacroCall

end SheetCut
