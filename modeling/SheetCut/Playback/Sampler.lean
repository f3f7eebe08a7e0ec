import SheetCut.Geometry.Segment

/-!
# Sampling segments

A segment is cut into equal parameter steps no longer than the step size and sampled at the ends of
all steps, so both its ends are always among the points. The joint of two segments appears twice.
-/

namespace SheetCut

inductive PathType where
  | piercing
  | leadIn
  | approach
  | cutting
deriving DecidableEq

/-- The laser fires while the phase is traversed. -/
def PathType.laserOn : PathType → Bool
  | piercing => false
  | leadIn => true
  | approach => false
  | cutting => true

/-- What the caller says about all points of a sampled list. -/
structure PathLabel where
  partIndex : Nat
  contourIndex : Nat
  laserOn : Bool
  pathType : PathType

def PathLabel.ofType (partIndex contourIndex : Nat) (pathType : PathType) : PathLabel :=
  ⟨partIndex, contourIndex, pathType.laserOn, pathType⟩

structure PathPoint (α : Type) where
  position : Point α
  /-- The position on the sheet, once the part is placed. -/
  worldPosition : Option (Point α)
  partIndex : Nat
  contourIndex : Nat
  segmentIndex : Nat
  stepIndex : Nat
  /-- The parameter along the segment. -/
  progress : α
  laserOn : Bool
  pathType : PathType

inductive SamplingError (α : Type) where
  | invalidStepSize (step : α)
  | tooManySteps (length step : α)

/-- The most steps that one segment may be cut into. -/
def maxSteps : Nat := 1000000

def SamplingError.message : SamplingError Float → String
  | invalidStepSize step =>
    "Invalid step size: " ++ Decimal.plain.text step ++ " (must be a positive number of millimeters)"
  | tooManySteps length step =>
    "Step size " ++ Decimal.plain.text step ++ " mm is too small for a " ++
      Decimal.plain.text length ++ " mm segment (more than " ++ toString maxSteps ++ " steps)"

/-- A step size that is finite and positive. -/
structure Sampler (α : Type) [Scalar α] where
  step : α
  isFinite_step : Scalar.isFinite step = true
  zero_lt_step : 0 < step

namespace Sampler

variable {α : Type} [Scalar α]

def ofStep? (step : α) : Except (SamplingError α) (Sampler α) :=
  if h : Scalar.isFinite step = true ∧ 0 < step then .ok ⟨step, h.1, h.2⟩
  else .error (.invalidStepSize step)

/-- The number of steps for a segment; none for one without a finite positive length. -/
def stepsFor (s : Sampler α) (segment : Segment α) : Except (SamplingError α) Nat :=
  let length := segment.length
  if !Scalar.isFinite length || length ≤ 0 then .ok 0
  else match Scalar.ceil? (length / s.step) with
    | some n => if n ≤ maxSteps then .ok n else .error (.tooManySteps length s.step)
    | none => .error (.tooManySteps length s.step)

def progress (n k : Nat) : α := if 0 < n then (k : α) / (n : α) else 0

def pointOf (segment : Segment α) (segmentIndex : Nat) (label : PathLabel) (n k : Nat) :
    PathPoint α where
  position := segment.pointAt (progress n k)
  worldPosition := none
  partIndex := label.partIndex
  contourIndex := label.contourIndex
  segmentIndex
  stepIndex := k
  progress := progress n k
  laserOn := label.laserOn
  pathType := label.pathType

def sampleSegment (s : Sampler α) (segment : Segment α) (segmentIndex : Nat) (label : PathLabel) :
    Except (SamplingError α) (List (PathPoint α)) := do
  let n ← s.stepsFor segment
  return (List.range (n + 1)).map (pointOf segment segmentIndex label n)

/-- The points of a list of labelled segments, which are numbered from `first` on. The first segment
that cannot be sampled decides the error. -/
def sampleLabelled (s : Sampler α) (first : Nat) :
    List (PathLabel × Segment α) → Except (SamplingError α) (List (PathPoint α))
  | [] => .ok []
  | (label, segment) :: rest => do
    let points ← s.sampleSegment segment first label
    let others ← s.sampleLabelled (first + 1) rest
    return points ++ others

def sample (s : Sampler α) (segments : List (Segment α)) (label : PathLabel) :
    Except (SamplingError α) (List (PathPoint α)) :=
  s.sampleLabelled 0 (segments.map fun segment => (label, segment))

/-- Sampling onto the end of a list that the caller has. -/
abbrev Appending (α : Type) := ExceptT (SamplingError α) (StateM (List (PathPoint α)))

/-- Appends the points of one segment, step by step. -/
def appendSegment (s : Sampler α) (segment : Segment α) (segmentIndex : Nat) (label : PathLabel) :
    Appending α Unit := do
  let n ← MonadExcept.ofExcept (s.stepsFor segment)
  (List.range (n + 1)).forM fun k => modify (· ++ [pointOf segment segmentIndex label n k])

/-- Appends the points of segments that are numbered from `first` on. Those of the segments before
one that cannot be sampled stay in the list. -/
def appendSegments (s : Sampler α) (label : PathLabel) (first : Nat) :
    List (Segment α) → Appending α Unit
  | [] => pure ()
  | segment :: rest => do
    s.appendSegment segment first label
    s.appendSegments label (first + 1) rest

end Sampler

end SheetCut
