import SheetCut.Json.Printer
import SheetCut.Json.Sorted
import SheetCut.Snapshot.Playback
import SheetCut.Snapshot.Program
import SheetCut.Text.Piece

/-!
# Reports

What is printed about a program and about its playback, as lines for a reader or as JSON.
-/

namespace SheetCut

open Text

def unlines (lines : List String) : String := String.join (lines.map (· ++ "\n"))

namespace Contour

def reportLine (c : Contour Float) : String :=
  "  " ++ padRight 16 c.id ++ " " ++ c.piercingType.text ++ " / " ++ c.cuttingType.text ++
    (if c.remnant then " (remnant)" else "") ++ "  " ++ Decimal.fixed 2 c.length ++ " mm"

end Contour

namespace Part

/-- The extent for a reader, a dash if there is none. -/
def extentText (p : Part Float) : String :=
  match p.nominalExtent? with
  | some e => Decimal.plain.text e.width ++ " x " ++ Decimal.plain.text e.height
  | none => "-"

/-- The line of a part and those of its contours. -/
def reportLines (p : Part Float) : List String :=
  (padRight 12 p.id ++ " N" ++ padRight 7 (toString p.blockNumber.toNat) ++ " at " ++
    p.origin.text ++ " rot " ++ padLeft 6 (Decimal.fixed 1 p.rotation) ++ "  " ++
    toString p.contours.length ++ " contours, " ++ p.extentText) ::
  p.contours.map Contour.reportLine

end Part

def SkippedPart.reportLine (s : SkippedPart) : String :=
  padRight 12 s.partId ++ " skipped: code block N" ++ toString s.partCodeBlock.toNat ++
    " not found"

namespace Program

/-- The head of the report, above the parts. -/
def headLines (p : Program Float) : List String :=
  ["Version:   " ++ p.version,
   "Material:  " ++ p.material.material.text ++ " / " ++ p.material.assistGas.text ++ " (" ++
     p.material.dbName ++ ")",
   "Sheet:     " ++ Decimal.plain.text p.workpiece.width ++ " x " ++
     Decimal.plain.text p.workpiece.height ++ " mm, " ++ toString p.setup.totalParts.toNat ++
     " parts declared"]

/-- The extent of the parts on the sheet, if they have one. -/
def extentLines (p : Program Float) : List String :=
  match p.sheetBounds? with
  | some b => ["Extent:    " ++ b.min.text ++ " to " ++ b.max.text]
  | none => []

def report (p : Program Float) : String :=
  unlines
    (p.headLines ++ [""] ++ p.parts.flatMap Part.reportLines ++
      p.skippedParts.map SkippedPart.reportLine ++ ["", p.statistics.text] ++ p.extentLines)

/-- The program, its statistics and its extent as one JSON object with sorted names. -/
def jsonReport (p : Program Float) : String :=
  let bounds := match p.sheetBounds? with
    | some b => Snapshot.toJson b
    | none => Json.null
  (Json.object
    [("program", Snapshot.toJson p), ("stats", Snapshot.toJson p.statistics),
     ("sheetBounds", bounds)]).sorted.pretty ++ "\n"

end Program

def PathType.reportName : PathType → String
  | piercing => "Piercing"
  | leadIn => "LeadIn"
  | approach => "Approach"
  | cutting => "Cutting"

namespace PathPoint

/-- The line of a point: its indices, its phase, the laser, and its place on the sheet. -/
def reportLine (p : PathPoint Float) : String :=
  let place := p.worldPosition.getD p.position
  String.intercalate "\t"
    [toString p.partIndex, toString p.contourIndex, toString p.segmentIndex,
     p.pathType.reportName, if p.laserOn then "1" else "0", Decimal.fixed 3 place.x,
     Decimal.fixed 3 place.y]

def report (points : List (PathPoint Float)) : String := unlines (points.map reportLine)

def jsonReport (points : List (PathPoint Float)) : String :=
  (Snapshot.toJson points).compact ++ "\n"

end PathPoint

end SheetCut
