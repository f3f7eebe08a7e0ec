import SheetCut.Command.Line
import SheetCut.Contour.Scan
import SheetCut.Program.Header

/-!
# Assembling programs

A placement names the block where the code of its part begins. The part is scanned from the first
marker of that block to the part end; a placement without such a marker is skipped, and the others
are not touched by it.
-/

namespace SheetCut

variable {α : Type} [Scalar α]

/-- The part of a placement. How many contours the placement declares does not matter. -/
def Part.ofPlacement? (commands : List (Command α)) (p : Placement α) :
    Except ProgramError (Part α) :=
  match commands.dropWhile fun c => c.blockNumber? != some p.partCodeBlock with
  | [] => .error (.partCodeNotFound p.partId p.partCodeBlock)
  | code =>
    .ok
      { id := p.partId
        blockNumber := p.partCodeBlock
        originBlockNumber := p.originBlockNumber
        origin := p.origin
        rotation := p.rotation
        contours := (ScanState.start p.partCodeBlock).contours code }

namespace Program

/-- One more placement gives a part or is skipped; any failure but a missing part code is one of
the whole program. -/
def place? (commands : List (Command α)) (built : List (Part α) × List SkippedPart)
    (p : Placement α) : Except ProgramError (List (Part α) × List SkippedPart) :=
  match Part.ofPlacement? commands p with
  | .ok part => .ok (built.1 ++ [part], built.2)
  | .error (.partCodeNotFound partId partCodeBlock) =>
    .ok (built.1, built.2 ++ [⟨partId, partCodeBlock⟩])
  | .error e => .error e

/-- The program that a list of commands describes. It fails only when a mandatory section is
missing. -/
def ofCommands? (commands : List (Command α)) (keepCommands : Bool) :
    Except ProgramError (Program α) := do
  let material ← materialIn? commands
  let setup ← setupIn? commands
  let placements := placementsIn commands
  let (parts, skippedParts) ← placements.foldlM (place? commands) ([], [])
  return {
    version := versionIn commands
    material, setup
    workpiece := ⟨setup.width, setup.height⟩
    placements, parts, skippedParts
    rawCommands := if keepCommands then commands else [] }

def ofText? (text : String) (keepCommands : Bool) : Except ProgramError (Program α) :=
  ofCommands? (Command.ofText text) keepCommands

end Program

end SheetCut
