import SheetCut.Code
import SheetCut.Decimal.Layout
import SheetCut.Text.Digit

/-!
# Commands

What the lines of a program say: a comment, a block number, a macro call with its fields, or a
motion. Every recognized line gives at most one command besides the block numbers in front of it.
-/

namespace SheetCut

/-- A macro call. The remnant marker is one of two calls, told apart by its number of arguments. -/
inductive MacroCall (α : Type) where
  /-- Technology database selection. -/
  | loadDatabase (material : Code .material) (dbName : String) (assistGas : Code .gas)
  /-- Sheet setup. -/
  | init (totalParts : UInt32) (width height : α)
  /-- Placement of a part. -/
  | partOrigin (x y rotation : α) (partCodeBlock contourCount : UInt32)
  | partProgram
  | contourStart (piercingType : Code .piercing) (cuttingType : Code .cutting) (x y : α)
      (toolCompensation : Int32) (width height : α)
  | pierce
  | leadIn (code : Int32) (x y i j : α)
  /-- The laser goes on: the approach ends and cutting begins. -/
  | startCut
  | contourEnd (code : Int32) (x y i j : α) (web : Int32)
  | partEnd
  /-- End of the placements. -/
  | programEnd
  | remnantStart (cuttingType : Code .cutting) (cuttingKind : Int32) (x y : α)
  | remnantPhase (phase : Int32)

def MacroCall.name {α : Type} : MacroCall α → String
  | loadDatabase .. => "HKLDB"
  | init .. => "HKINI"
  | partOrigin .. => "HKOST"
  | partProgram => "HKPPP"
  | contourStart .. => "HKSTR"
  | pierce => "HKPIE"
  | leadIn .. => "HKLEA"
  | startCut => "HKCUT"
  | contourEnd .. => "HKSTO"
  | partEnd => "HKPED"
  | programEnd => "HKEND"
  | remnantStart .. => "HKSCRC"
  | remnantPhase .. => "HKSCRC"

/-- A motion line. A word that the line does not have is `none`, which is not the same as zero. -/
structure Motion (α : Type) where
  /-- The leading `G` or `M` word; empty on a line of bare coordinates. -/
  mnemonic : String
  x : Option α
  y : Option α
  z : Option α
  i : Option α
  j : Option α
  f : Option α

namespace Motion

/-- The number that says what the motion builds: 0 for bare coordinates, `n` for `Gn`. Machine
functions, and numbers that do not fit 32 bits, have none. -/
def geometryCode? {α : Type} (m : Motion α) : Option Int32 :=
  match m.mnemonic.toList with
  | [] => some 0
  | 'G' :: number => Text.int32? number
  | _ => none

/-- The point that the motion goes to, when it names both coordinates. -/
def target? {α : Type} (m : Motion α) : Option (α × α) :=
  match m.x, m.y with
  | some x, some y => some (x, y)
  | _, _ => none

/-- The mnemonic and the words that are present, in a fixed order. -/
def text (m : Motion Float) : String :=
  let word (letter : String) (value : Option Float) : String :=
    match value with
    | some v => " " ++ letter ++ Decimal.plain.text v
    | none => ""
  m.mnemonic ++ word "X" m.x ++ word "Y" m.y ++ word "Z" m.z ++ word "I" m.i ++ word "J" m.j ++
    word "F" m.f

end Motion

inductive Command (α : Type) where
  /-- The text of a comment, trimmed and without its marker. -/
  | comment (text : String)
  /-- A block number: the anchor that placements refer to. -/
  | blockMarker (number : UInt32)
  | call (c : MacroCall α)
  | motion (m : Motion α)

namespace Command

variable {α : Type}

def blockNumber? : Command α → Option UInt32
  | blockMarker n => some n
  | _ => none

def text : Command Float → String
  | comment t => ";" ++ t
  | blockMarker n => "N" ++ toString n.toNat
  | call c => c.name
  | motion m => m.text

end Command

end SheetCut
