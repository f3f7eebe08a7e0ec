import SheetCut.Decimal.Layout
import SheetCut.Scalar

/-!
# Points

Points and extents in machine coordinates, in millimeters.
-/

namespace SheetCut

structure Point (α : Type) where
  x : α
  y : α

structure Extent (α : Type) where
  width : α
  height : α

/-- Coordinates that differ by no more than this count as equal. -/
def tolerance {α : Type} [Scalar α] : α := Scalar.ofDecimal 1 (-9)

namespace Point

variable {α : Type} [Scalar α]

def origin : Point α := ⟨0, 0⟩

def distance (p q : Point α) : α := Scalar.hypot (q.x - p.x) (q.y - p.y)

/-- Equality within the tolerance on both axes. -/
def near (p q : Point α) : Bool :=
  Scalar.abs (p.x - q.x) ≤ tolerance && Scalar.abs (p.y - q.y) ≤ tolerance

def offset (p : Point α) (dx dy : α) : Point α := ⟨p.x + dx, p.y + dy⟩

/-- The point at the fraction `t` of the way from `p` to `q`. The two weights make it exact at both
ends. -/
def lerp (p q : Point α) (t : α) : Point α :=
  let s := 1 - t
  ⟨s * p.x + t * q.x, s * p.y + t * q.y⟩

def angleFrom (p center : Point α) : α := Scalar.atan2 (p.y - center.y) (p.x - center.x)

/-- The point turned counter-clockwise about the origin. No turn leaves it exactly as it is. -/
def rotated (p : Point α) (degrees : α) : Point α :=
  if degrees == 0 then p
  else
    let angle := Scalar.ofDegrees degrees
    let sin := Scalar.sin angle
    let cos := Scalar.cos angle
    ⟨p.x * cos - p.y * sin, p.x * sin + p.y * cos⟩

def onCircle (center : Point α) (radius angle : α) : Point α :=
  ⟨center.x + radius * Scalar.cos angle, center.y + radius * Scalar.sin angle⟩

def isFinite (p : Point α) : Bool := Scalar.isFinite p.x && Scalar.isFinite p.y

def text (p : Point Float) : String :=
  "(" ++ Decimal.fixed 3 p.x ++ ", " ++ Decimal.fixed 3 p.y ++ ")"

end Point

end SheetCut
