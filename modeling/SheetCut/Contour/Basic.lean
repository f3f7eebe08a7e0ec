import SheetCut.Code
import SheetCut.Geometry.Segment

/-!
# Contours

One continuous cut or mark path of a part, with its phases kept apart: the lead-in, the approach
with the laser off, and the cut with the laser on.
-/

namespace SheetCut

/-- The entry cut of a contour, with the motion code it was written with. -/
structure LeadIn (α : Type) where
  code : Int32
  segment : Segment α

structure Contour (α : Type) where
  id : String
  /-- The block number in force where the contour starts. -/
  blockNumber : UInt32
  piercingType : Code .piercing
  cuttingType : Code .cutting
  piercingPosition : Point α
  toolCompensation : Int32
  /-- The extent that the contour start declares. -/
  declaredSize : Extent α
  /-- Opened by a remnant marker. -/
  remnant : Bool
  leadIn : Option (LeadIn α)
  approachPath : List (Segment α)
  cuttingPath : List (Segment α)
  endCode : Int32
  endPosition : Point α
  /-- The web flag of the contour end, carried through. -/
  web : Int32
  /-- All segments in the order in which they are traversed. -/
  allSegments : List (Segment α)

namespace Contour

variable {α : Type}

def leadInSegments (c : Contour α) : List (Segment α) :=
  match c.leadIn with
  | some l => [l.segment]
  | none => []

variable [Scalar α]

/-- The box around the segments, the piercing position and, if there are segments, the end
position. -/
def bounds (c : Contour α) : Bounds α :=
  let b := (Bounds.ofSegments c.allSegments).update c.piercingPosition
  if c.allSegments.isEmpty then b else b.update c.endPosition

def length (c : Contour α) : α := pathLength c.allSegments

end Contour

end SheetCut
