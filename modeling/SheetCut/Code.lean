/-!
# Numbered codes

The macro calls of a program carry four kinds of numeric codes. A code is kept as the number it is;
its table only decides how it is displayed.
-/

namespace SheetCut

inductive CodeTable where
  | material
  | gas
  | piercing
  | cutting

def CodeTable.label? : CodeTable → Int → Option String
  | .material, 1 => "MS (Mild Steel)"
  | .material, 2 => "STS (Stainless Steel)"
  | .material, 3 => "AL (Aluminum)"
  | .material, 4 => "BRASS"
  | .material, 5 => "COPPER"
  | .material, 9 => "USER"
  | .gas, 1 => "O2 (Oxygen)"
  | .gas, 2 => "N2 (Nitrogen)"
  | .gas, 3 => "AIR"
  | .piercing, 0 => "No Piercing"
  | .piercing, 1 => "Normal Piercing"
  | .piercing, 4 => "User Defined"
  | .piercing, 10 => "Shot Marking"
  | .piercing, 11 => "Repeat Piercing"
  | .cutting, 0 => "None"
  | .cutting, 1 => "Normal Cutting"
  | .cutting, 2 => "Pulse Cutting"
  | .cutting, 10 => "Marking (Engraving)"
  | .cutting, 11 => "Repeat Cutting"
  | _, _ => none

/-- A number to be looked up in the table `t`. -/
structure Code (t : CodeTable) where
  value : Int32
deriving DecidableEq

namespace Code

variable {t : CodeTable}

def label? (c : Code t) : Option String := t.label? c.value.toInt

def isKnown (c : Code t) : Bool := c.label?.isSome

/-- The label, or the bare number when the table has none. -/
def text (c : Code t) : String :=
  match c.label? with
  | some label => label
  | none => "Unknown (" ++ toString c.value.toInt ++ ")"

/-- The code of a contour that does not pierce: a remnant cut. -/
def noPiercing : Code .piercing := ⟨0⟩

def pierces (c : Code .piercing) : Bool := 0 < c.value

/-- The pass engraves instead of cutting through. -/
def isMarking (c : Code .cutting) : Bool := c.value == 10

end Code

end SheetCut
