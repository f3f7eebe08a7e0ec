import SheetCut.Geometry.Segment
import SheetCut.Json.Value

/-!
# Snapshots

Values that are written as JSON trees and read back from them. Fields keep their names, segments
carry the name of their kind in the field `type`. The readers take records also as arrays of all
their fields, and whole numbers for floats.
-/

namespace SheetCut

class Snapshot (T : Type) where
  toJson : T → Json
  ofJson? : Json → Option T

open Json Snapshot

instance : Snapshot Float := ⟨Json.ofFloat, Json.float?⟩

instance : Snapshot Bool := ⟨Json.bool, Json.bool?⟩

instance : Snapshot String := ⟨Json.string, Json.string?⟩

instance : Snapshot UInt32 := ⟨Json.ofUInt32, Json.uint32?⟩

instance : Snapshot Int32 := ⟨Json.ofInt32, Json.int32?⟩

/-- Counts; what does not fit 64 bits is not read. -/
instance : Snapshot Nat := ⟨Json.ofNat, Json.count?⟩

instance {T : Type} [Snapshot T] : Snapshot (List T) where
  toJson items := array (items.map toJson)
  ofJson? := list? ofJson?

instance : Snapshot (Point Float) where
  toJson p := object [("x", toJson p.x), ("y", toJson p.y)]
  ofJson? j := do
    match ← j.fields? ["x", "y"] 2 with
    | [some x, some y] => return ⟨← ofJson? x, ← ofJson? y⟩
    | _ => none

instance : Snapshot (Extent Float) where
  toJson e := object [("width", toJson e.width), ("height", toJson e.height)]
  ofJson? j := do
    match ← j.fields? ["width", "height"] 2 with
    | [some width, some height] => return ⟨← ofJson? width, ← ofJson? height⟩
    | _ => none

instance : Snapshot (Bounds Float) where
  toJson b := object [("min", toJson b.min), ("max", toJson b.max)]
  ofJson? j := do
    match ← j.fields? ["min", "max"] 2 with
    | [some min, some max] => return ⟨← ofJson? min, ← ofJson? max⟩
    | _ => none

def Arc.fieldNames : List String :=
  ["start", "end", "center", "radius", "clockwise", "startAngle", "endAngle"]

def Segment.toJson : Segment Float → Json
  | .line p q => object [("type", string "line"), ("start", Snapshot.toJson p), ("end", Snapshot.toJson q)]
  | .arc a =>
    object
      [("type", string "arc"), ("start", Snapshot.toJson a.start), ("end", Snapshot.toJson a.stop),
       ("center", Snapshot.toJson a.center), ("radius", Snapshot.toJson a.radius),
       ("clockwise", Snapshot.toJson a.clockwise), ("startAngle", Snapshot.toJson a.startAngle),
       ("endAngle", Snapshot.toJson a.endAngle)]

def Segment.ofJson? (j : Json) : Option (Segment Float) := do
  match ← j.tagged? "type" ["line", "arc"] false with
  | ("line", rest) =>
    match ← rest.fields? ["start", "end"] 2 with
    | [some p, some q] => return .line (← Snapshot.ofJson? p) (← Snapshot.ofJson? q)
    | _ => none
  | ("arc", rest) =>
    match ← rest.fields? Arc.fieldNames 7 with
    | [some start, some stop, some center, some radius, some clockwise, some startAngle,
        some endAngle] =>
      return .arc
        { start := ← Snapshot.ofJson? start
          stop := ← Snapshot.ofJson? stop
          center := ← Snapshot.ofJson? center
          radius := ← Snapshot.ofJson? radius
          clockwise := ← Snapshot.ofJson? clockwise
          startAngle := ← Snapshot.ofJson? startAngle
          endAngle := ← Snapshot.ofJson? endAngle }
    | _ => none
  | _ => none

instance : Snapshot (Segment Float) := ⟨Segment.toJson, Segment.ofJson?⟩

end SheetCut
