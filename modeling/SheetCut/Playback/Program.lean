import SheetCut.Playback.Sampler
import SheetCut.Program.Assembly

/-!
# Playing back programs

The playback walks through a program in traversal order: part by part, contour by contour, and in
each contour the pierce, the lead-in, the approach and the cut. Every point also gets its place on
the sheet.
-/

namespace SheetCut.Sampler

variable {α : Type} [Scalar α]

/-- The segments of a contour, each with the label of its phase. -/
def phases (partIndex contourIndex : Nat) (c : Contour α) : List (PathLabel × Segment α) :=
  let labelled (t : PathType) (segments : List (Segment α)) :=
    segments.map fun s => (PathLabel.ofType partIndex contourIndex t, s)
  labelled .leadIn c.leadInSegments ++ labelled .approach c.approachPath ++
    labelled .cutting c.cuttingPath

/-- The point of the pierce, where the contour has one. -/
def piercePoints (partIndex contourIndex : Nat) (c : Contour α) : List (PathPoint α) :=
  if c.piercingType.pierces then
    [{ position := c.piercingPosition, worldPosition := none, partIndex, contourIndex
       segmentIndex := 0, stepIndex := 0, progress := 0, laserOn := false, pathType := .piercing }]
  else []

/-- The points of a contour. Segments are numbered through the three phases. -/
def sampleContour (s : Sampler α) (part : Part α) (partIndex contourIndex : Nat) (c : Contour α) :
    Except (SamplingError α) (List (PathPoint α)) := do
  let points ← s.sampleLabelled 0 (phases partIndex contourIndex c)
  return (piercePoints partIndex contourIndex c ++ points).map fun p =>
    { p with worldPosition := some (part.toWorld p.position) }

def sampleContours (s : Sampler α) (part : Part α) (partIndex first : Nat) :
    List (Contour α) → Except (SamplingError α) (List (PathPoint α))
  | [] => .ok []
  | c :: cs => do
    let points ← s.sampleContour part partIndex first c
    let others ← s.sampleContours part partIndex (first + 1) cs
    return points ++ others

def sampleParts (s : Sampler α) (first : Nat) :
    List (Part α) → Except (SamplingError α) (List (PathPoint α))
  | [] => .ok []
  | p :: ps => do
    let points ← s.sampleContours p first 0 p.contours
    let others ← s.sampleParts (first + 1) ps
    return points ++ others

def sampleProgram (s : Sampler α) (p : Program α) : Except (SamplingError α) (List (PathPoint α)) :=
  s.sampleParts 0 p.parts

end SheetCut.Sampler
