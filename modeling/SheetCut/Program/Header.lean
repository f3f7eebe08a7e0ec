import SheetCut.Program.Basic

/-!
# Headers

What a program says about itself before its parts begin: version, material, sheet and placements.
Of the first three the first mention counts; placements are read up to the program end.
-/

namespace SheetCut

/-- The header sections that a program cannot do without. -/
inductive Section where
  | database
  | setup

def Section.name : Section → String
  | database => "HKLDB"
  | setup => "HKINI"

inductive ProgramError where
  | missingSection (s : Section)
  /-- The block that a placement refers to is not marked anywhere. -/
  | partCodeNotFound (partId : String) (partCodeBlock : UInt32)

namespace ProgramError

/-- The error concerns the whole program and not just one placement. -/
def isFatal : ProgramError → Bool
  | missingSection _ => true
  | partCodeNotFound .. => false

def message : ProgramError → String
  | missingSection s => "Missing mandatory section: " ++ s.name
  | partCodeNotFound id block =>
    "Part " ++ id ++ ": code block N" ++ toString block.toNat ++ " not found"

end ProgramError

namespace Program

variable {α : Type}

def versionOf? : Command α → Option String
  | .comment text => if "!V".toList.isPrefixOf text.toList then some text else none
  | _ => none

/-- The first comment that begins with `!V`. -/
def versionIn (commands : List (Command α)) : String := (commands.findSome? versionOf?).getD "Unknown"

/-- The first mention of a section that has to be there. -/
def sectionIn? {β : Type} (s : Section) (read? : Command α → Option β)
    (commands : List (Command α)) : Except ProgramError β :=
  match commands.findSome? read? with
  | some b => .ok b
  | none => .error (.missingSection s)

def materialOf? : Command α → Option Material
  | .call (.loadDatabase material dbName assistGas) => some ⟨material, dbName, assistGas⟩
  | _ => none

def materialIn? (commands : List (Command α)) : Except ProgramError Material :=
  sectionIn? .database materialOf? commands

def setupOf? : Command α → Option (SheetSetup α)
  | .call (.init totalParts width height) => some ⟨totalParts, width, height⟩
  | _ => none

def setupIn? (commands : List (Command α)) : Except ProgramError (SheetSetup α) :=
  sectionIn? .setup setupOf? commands

/-- The placements before the first program end, while `block` is the number in force at the head
of the commands. -/
def placementsFrom (block : UInt32) : List (Command α) → List (Placement α)
  | [] => []
  | .blockMarker n :: cs => placementsFrom n cs
  | .call (.partOrigin x y rotation partCodeBlock contourCount) :: cs =>
    ⟨block, ⟨x, y⟩, rotation, partCodeBlock, contourCount⟩ :: placementsFrom block cs
  | .call .programEnd :: _ => []
  | _ :: cs => placementsFrom block cs

def placementsIn (commands : List (Command α)) : List (Placement α) := placementsFrom 0 commands

end Program

end SheetCut
