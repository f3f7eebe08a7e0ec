import SheetCut.Playback.Sampler
import SheetCut.Snapshot.Geometry

/-!
# Snapshots of playback points
-/

namespace SheetCut

open Json Snapshot

namespace PathType

def name : PathType → String
  | piercing => "piercing"
  | leadIn => "leadIn"
  | approach => "approach"
  | cutting => "cutting"

def ofName? : String → Option PathType
  | "piercing" => some piercing
  | "leadIn" => some leadIn
  | "approach" => some approach
  | "cutting" => some cutting
  | _ => none

end PathType

instance : Snapshot PathType where
  toJson t := string t.name
  ofJson? j := j.bareName?.bind PathType.ofName?

namespace PathPoint

def fieldNames : List String :=
  ["position", "worldPosition", "partIndex", "contourIndex", "segmentIndex", "stepIndex",
   "progress", "laserOn", "pathType"]

/-- A point that is not placed has no member for its place on the sheet. -/
def toJson (p : PathPoint Float) : Json :=
  let world := p.worldPosition.toList.map fun w => ("worldPosition", Snapshot.toJson w)
  object
    (("position", Snapshot.toJson p.position) :: world ++
      [("partIndex", Snapshot.toJson p.partIndex),
       ("contourIndex", Snapshot.toJson p.contourIndex),
       ("segmentIndex", Snapshot.toJson p.segmentIndex),
       ("stepIndex", Snapshot.toJson p.stepIndex), ("progress", Snapshot.toJson p.progress),
       ("laserOn", bool p.laserOn), ("pathType", Snapshot.toJson p.pathType)])

def ofJson? (j : Json) : Option (PathPoint Float) := do
  match ← j.fields? fieldNames 9 with
  | [some position, world, some partIndex, some contourIndex, some segmentIndex, some stepIndex,
      some progress, some laserOn, some pathType] =>
    return {
      position := ← Snapshot.ofJson? position
      worldPosition := ← optional? Snapshot.ofJson? world
      partIndex := ← Snapshot.ofJson? partIndex
      contourIndex := ← Snapshot.ofJson? contourIndex
      segmentIndex := ← Snapshot.ofJson? segmentIndex
      stepIndex := ← Snapshot.ofJson? stepIndex
      progress := ← Snapshot.ofJson? progress
      laserOn := ← Snapshot.ofJson? laserOn
      pathType := ← Snapshot.ofJson? pathType }
  | _ => none

end PathPoint

instance : Snapshot (PathPoint Float) := ⟨PathPoint.toJson, PathPoint.ofJson?⟩

end SheetCut
