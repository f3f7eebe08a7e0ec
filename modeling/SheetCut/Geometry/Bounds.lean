import SheetCut.Geometry.Point

/-!
# Bounding boxes

Axis-aligned boxes that grow by points and by other boxes. The empty box has its corners at
infinity, the wrong way round, so that it needs no case of its own.
-/

namespace SheetCut

structure Bounds (α : Type) where
  min : Point α
  max : Point α

namespace Bounds

variable {α : Type} [Scalar α]

def empty : Bounds α where
  min := ⟨Scalar.infinity, Scalar.infinity⟩
  max := ⟨-Scalar.infinity, -Scalar.infinity⟩

/-- The box grown to contain the point. A point with a coordinate that is not finite is ignored. -/
def update (b : Bounds α) (p : Point α) : Bounds α :=
  if p.isFinite then
    { min := ⟨Scalar.lower b.min.x p.x, Scalar.lower b.min.y p.y⟩
      max := ⟨Scalar.upper b.max.x p.x, Scalar.upper b.max.y p.y⟩ }
  else b

/-- The corners are finite and the right way round. -/
def isValid (b : Bounds α) : Bool :=
  b.min.isFinite && b.max.isFinite && b.min.x ≤ b.max.x && b.min.y ≤ b.max.y

/-- The box grown to contain another box, unless that one is not valid. -/
def merge (b other : Bounds α) : Bounds α :=
  if other.isValid then (b.update other.min).update other.max else b

def ofPoints (points : List (Point α)) : Bounds α := points.foldl update empty

def width (b : Bounds α) : α := if b.isValid then b.max.x - b.min.x else 0

def height (b : Bounds α) : α := if b.isValid then b.max.y - b.min.y else 0

def valid? (b : Bounds α) : Option (Bounds α) := if b.isValid then some b else none

end Bounds

end SheetCut
