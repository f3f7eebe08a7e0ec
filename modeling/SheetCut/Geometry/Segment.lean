import SheetCut.Geometry.Bounds

/-!
# Path segments

Lines and circular arcs. The sweep of an arc is normalized in one place, so length, sampling and
bounds always agree on the way it turns.
-/

namespace SheetCut

/-- A circular arc. `radius`, `startAngle` and `endAngle` are kept as given; they fit the points
when the arc is made by `Segment.arcAround`. -/
structure Arc (α : Type) where
  start : Point α
  stop : Point α
  center : Point α
  radius : α
  clockwise : Bool
  startAngle : α
  endAngle : α

inductive Segment (α : Type) where
  | line (start stop : Point α)
  | arc (a : Arc α)

variable {α : Type} [Scalar α]

/-- The span between two angles with its sign matched to the direction: at most zero clockwise, at
least zero otherwise. -/
def arcSweep (startAngle endAngle : α) (clockwise : Bool) : α :=
  let span := endAngle - startAngle
  if clockwise then
    if 0 < span then span - Scalar.fullTurn else span
  else
    if span < 0 then span + Scalar.fullTurn else span

/-- Whether `angle` is passed while sweeping from `startAngle`. No angle is passed by no sweep. -/
def angleWithinSweep (angle startAngle sweep : α) : Bool :=
  if sweep == 0 then false
  else
    let delta :=
      if 0 < sweep then Scalar.modulo (angle - startAngle) Scalar.fullTurn
      else Scalar.modulo (startAngle - angle) Scalar.fullTurn
    delta ≤ Scalar.abs sweep

namespace Arc

/-- An arc too small to have a direction; it stays at its start. -/
def isDegenerate (a : Arc α) : Bool := !(tolerance < a.radius)

def sweep (a : Arc α) : α :=
  if a.isDegenerate then 0 else arcSweep a.startAngle a.endAngle a.clockwise

def pointAt (a : Arc α) (t : α) : Point α :=
  if a.isDegenerate then a.start else a.center.onCircle a.radius (a.startAngle + t * a.sweep)

def cardinals : List α := (List.range 4).map fun (k : Nat) => (k : α) * Scalar.quarterTurn

/-- The extreme points of the circle that the arc passes. -/
def extremes (a : Arc α) : List (Point α) :=
  (cardinals.filter fun angle => angleWithinSweep angle a.startAngle a.sweep).map fun angle =>
    a.center.onCircle a.radius angle

end Arc

namespace Segment

/-- The arc around a center; the start decides the radius. -/
def arcAround (start stop center : Point α) (clockwise : Bool) : Segment α :=
  .arc
    { start, stop, center, clockwise
      radius := start.distance center
      startAngle := start.angleFrom center
      endAngle := stop.angleFrom center }

/-- The segment that a motion code describes: a line for 0 and 1, an arc for 2 (clockwise) and 3
with its center at the given offset from the start, nothing for any other code. -/
def build? (code : Int32) (start stop : Point α) (i j : α) : Option (Segment α) :=
  match code.toInt with
  | 0 => some (.line start stop)
  | 1 => some (.line start stop)
  | 2 => some (arcAround start stop (start.offset i j) true)
  | 3 => some (arcAround start stop (start.offset i j) false)
  | _ => none

def start : Segment α → Point α
  | line p _ => p
  | arc a => a.start

def stop : Segment α → Point α
  | line _ q => q
  | arc a => a.stop

def isArc : Segment α → Bool
  | line .. => false
  | arc _ => true

def sweep : Segment α → α
  | line .. => 0
  | arc a => a.sweep

def length : Segment α → α
  | line p q => p.distance q
  | arc a => Scalar.abs (a.sweep * a.radius)

/-- The position at the parameter `t`, from 0 at the start to 1 at the end. -/
def pointAt (s : Segment α) (t : α) : Point α :=
  match s with
  | line p q => p.lerp q t
  | arc a => a.pointAt t

/-- The box around the two ends and the extreme points in between. -/
def bounds (s : Segment α) : Bounds α :=
  let extremes := match s with
    | line .. => []
    | arc a => a.extremes
  Bounds.ofPoints (s.start :: s.stop :: extremes)

end Segment

def Bounds.ofSegments (segments : List (Segment α)) : Bounds α :=
  segments.foldl (fun b s => b.merge s.bounds) Bounds.empty

/-- The sum of the lengths in order. The sum of no lengths is a negative zero, which is neutral for
addition where a positive one is not. -/
def pathLength (segments : List (Segment α)) : α :=
  segments.foldl (fun total s => total + s.length) (-0)

end SheetCut
