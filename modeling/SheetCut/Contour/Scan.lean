import SheetCut.Command.Basic
import SheetCut.Contour.Basic

/-!
# Scanning contours

A part's commands are scanned one by one. The state is a plain value: the block number in force,
the pen position, and the contour being recorded, if any. A step hands back the new state, with the
contour that the command closed, or says that the part has ended.
-/

namespace SheetCut

/-- A contour between its opening marker and its end. -/
structure OpenContour (α : Type) where
  blockNumber : UInt32
  piercingType : Code .piercing
  cuttingType : Code .cutting
  piercingPosition : Point α
  toolCompensation : Int32
  declaredSize : Extent α
  remnant : Bool
  leadIn : Option (LeadIn α)
  approachPath : List (Segment α)
  cuttingPath : List (Segment α)
  /-- The laser is on: motions go to the cutting path. -/
  cutting : Bool

namespace OpenContour

variable {α : Type}

/-- The contour as its marker opens it, with no segments yet. -/
def opened [Scalar α] (blockNumber : UInt32) (cuttingType : Code .cutting) (position : Point α) :
    OpenContour α where
  blockNumber
  piercingType := Code.noPiercing
  cuttingType
  piercingPosition := position
  toolCompensation := 0
  declaredSize := ⟨0, 0⟩
  remnant := false
  leadIn := none
  approachPath := []
  cuttingPath := []
  cutting := false

/-- A motion's segment is recorded in the phase that the contour is in. -/
def push (c : OpenContour α) (s : Segment α) : OpenContour α :=
  if c.cutting then { c with cuttingPath := c.cuttingPath ++ [s] }
  else { c with approachPath := c.approachPath ++ [s] }

/-- The closed contour. Its segments are traversed phase by phase: lead-in, approach, cut. -/
def close (c : OpenContour α) (endCode : Int32) (endPosition : Point α) (web : Int32) :
    Contour α where
  id := "contour-" ++ toString c.blockNumber.toNat
  blockNumber := c.blockNumber
  piercingType := c.piercingType
  cuttingType := c.cuttingType
  piercingPosition := c.piercingPosition
  toolCompensation := c.toolCompensation
  declaredSize := c.declaredSize
  remnant := c.remnant
  leadIn := c.leadIn
  approachPath := c.approachPath
  cuttingPath := c.cuttingPath
  endCode
  endPosition
  web
  allSegments := (c.leadIn.map LeadIn.segment).toList ++ c.approachPath ++ c.cuttingPath

end OpenContour

structure ScanState (α : Type) where
  blockNumber : UInt32
  pen : Point α
  contour : Option (OpenContour α)

inductive ScanStep (α : Type) where
  | scanning (state : ScanState α)
  | closed (state : ScanState α) (contour : Contour α)
  | partEnd

namespace ScanState

variable {α : Type} [Scalar α]

/-- Idle at the start of a part's code. -/
def start (blockNumber : UInt32) : ScanState α where
  blockNumber
  pen := Point.origin
  contour := none

/-- A contour opens at a position; one that is still open is discarded. -/
def openAt (s : ScanState α) (position : Point α) (c : OpenContour α) : ScanState α :=
  { s with pen := position, contour := some c }

def startCutting (s : ScanState α) : ScanState α :=
  { s with contour := s.contour.map fun c => { c with cutting := true } }

/-- A lead-in replaces an earlier one and moves the pen. -/
def recordLeadIn (s : ScanState α) (code : Int32) (stop : Point α) (i j : α) : ScanState α :=
  match s.contour with
  | none => s
  | some c =>
    if code = 0 then s
    else match Segment.build? code s.pen stop i j with
      | none => s
      | some segment => { s with pen := stop, contour := some { c with leadIn := some ⟨code, segment⟩ } }

/-- A motion that builds a segment is recorded and moves the pen; any other leaves the state as it
is. Absent center offsets are zero. -/
def recordMotion (s : ScanState α) (m : Motion α) : ScanState α :=
  match s.contour, m.geometryCode?, m.target? with
  | some c, some code, some (x, y) =>
    match Segment.build? code s.pen ⟨x, y⟩ (m.i.getD 0) (m.j.getD 0) with
    | none => s
    | some segment => { s with pen := ⟨x, y⟩, contour := some (c.push segment) }
  | _, _, _ => s

/-- A contour end with a code cuts to its end point first, unless the pen is there already. -/
def cutTo (s : ScanState α) (c : OpenContour α) (code : Int32) (stop : Point α) (i j : α) :
    ScanState α × OpenContour α :=
  if code ≠ 0 ∧ !stop.near s.pen then
    match Segment.build? code s.pen stop i j with
    | none => (s, c)
    | some segment => ({ s with pen := stop }, { c with cuttingPath := c.cuttingPath ++ [segment] })
  else (s, c)

def call (s : ScanState α) : MacroCall α → ScanStep α
  | .contourStart piercingType cuttingType x y toolCompensation width height =>
    .scanning (s.openAt ⟨x, y⟩
      { OpenContour.opened s.blockNumber cuttingType ⟨x, y⟩ with
        piercingType, toolCompensation, declaredSize := ⟨width, height⟩ })
  | .remnantStart cuttingType _ x y =>
    .scanning (s.openAt ⟨x, y⟩
      { OpenContour.opened s.blockNumber cuttingType ⟨x, y⟩ with remnant := true, cutting := true })
  | .leadIn code x y i j => .scanning (s.recordLeadIn code ⟨x, y⟩ i j)
  | .startCut => .scanning s.startCutting
  | .remnantPhase phase =>
    if phase = 1 then .scanning s.startCutting
    else if phase = 2 then
      match s.contour with
      | none => .scanning s
      | some c => .closed { s with contour := none } (c.close 0 s.pen 0)
    else .scanning s
  | .contourEnd code x y i j web =>
    match s.contour with
    | none => .scanning s
    | some c =>
      let (s, c) := s.cutTo c code ⟨x, y⟩ i j
      .closed { s with contour := none } (c.close code ⟨x, y⟩ web)
  | .partEnd => .partEnd
  | .loadDatabase .. => .scanning s
  | .init .. => .scanning s
  | .partOrigin .. => .scanning s
  | .partProgram => .scanning s
  | .pierce => .scanning s
  | .programEnd => .scanning s

def step (s : ScanState α) : Command α → ScanStep α
  | .blockMarker n => .scanning { s with blockNumber := n }
  | .motion m => .scanning (s.recordMotion m)
  | .call c => s.call c
  | .comment _ => .scanning s

/-- The contours closed by a list of commands, up to the part end. -/
def contours (s : ScanState α) : List (Command α) → List (Contour α)
  | [] => []
  | c :: cs =>
    match s.step c with
    | .scanning next => next.contours cs
    | .closed next contour => contour :: next.contours cs
    | .partEnd => []

end ScanState

end SheetCut
