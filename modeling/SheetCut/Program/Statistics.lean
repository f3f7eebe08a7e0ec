import SheetCut.Program.Basic

/-!
# Statistics

Counts and path lengths of a program, and the extent of its parts on the sheet.
-/

namespace SheetCut

structure Statistics (α : Type) where
  partCount : Nat
  skippedPartCount : Nat
  contourCount : Nat
  remnantCount : Nat
  pierceCount : Nat
  segmentCount : Nat
  arcCount : Nat
  leadInLength : α
  approachLength : α
  cuttingLength : α

namespace Program

variable {α : Type}

def contours (p : Program α) : List (Contour α) := p.parts.flatMap Part.contours

def segments (p : Program α) : List (Segment α) := p.contours.flatMap Contour.allSegments

variable [Scalar α]

/-- The sum over all contours of the length of one of their phases. -/
def phaseLength (p : Program α) (phase : Contour α → List (Segment α)) : α :=
  p.contours.foldl (fun total c => total + pathLength (phase c)) 0

def statistics (p : Program α) : Statistics α where
  partCount := p.parts.length
  skippedPartCount := p.skippedParts.length
  contourCount := p.contours.length
  remnantCount := p.contours.countP Contour.remnant
  pierceCount := p.contours.countP fun c => c.piercingType.pierces
  segmentCount := p.segments.length
  arcCount := p.segments.countP Segment.isArc
  leadInLength := p.phaseLength Contour.leadInSegments
  approachLength := p.phaseLength Contour.approachPath
  cuttingLength := p.phaseLength Contour.cuttingPath

/-- The corners of a box, carried to the sheet. -/
def worldCorners (part : Part α) (b : Bounds α) : List (Point α) :=
  [b.min, b.max, ⟨b.min.x, b.max.y⟩, ⟨b.max.x, b.min.y⟩].map part.toWorld

/-- The box on the sheet around the boxes of all parts. A turned part is boxed by the corners of its
own box. -/
def sheetBounds? (p : Program α) : Option (Bounds α) :=
  (Bounds.ofPoints (p.parts.flatMap fun part =>
    match part.bounds? with
    | some b => worldCorners part b
    | none => [])).valid?

end Program

namespace Statistics

variable {α : Type} [Scalar α]

/-- Travel with the laser firing. -/
def laserOnLength (s : Statistics α) : α := s.leadInLength + s.cuttingLength

def totalLength (s : Statistics α) : α := s.laserOnLength + s.approachLength

/-- Four lines, the last one without a line end. -/
def text (s : Statistics Float) : String :=
  "Parts: " ++ toString s.partCount ++ " (" ++ toString s.skippedPartCount ++ " skipped)\n" ++
  "Contours: " ++ toString s.contourCount ++ " (" ++ toString s.remnantCount ++ " remnant, " ++
    toString s.pierceCount ++ " pierces)\n" ++
  "Segments: " ++ toString s.segmentCount ++ " (" ++ toString s.arcCount ++ " arcs)\n" ++
  "Length: " ++ Decimal.fixed 2 s.cuttingLength ++ " mm cut, " ++ Decimal.fixed 2 s.leadInLength ++
    " mm lead-in, " ++ Decimal.fixed 2 s.approachLength ++ " mm approach"

end Statistics

end SheetCut
