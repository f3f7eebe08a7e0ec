import SheetCut.Program.Statistics
import SheetCut.Snapshot.Command

/-!
# Snapshots of programs

Contours, parts, programs and statistics. The kept commands of a program are left out when there
are none.
-/

namespace SheetCut

open Json Snapshot

instance : Snapshot (LeadIn Float) where
  toJson l := object [("code", toJson l.code), ("segment", toJson l.segment)]
  ofJson? j := do
    match ← j.fields? ["code", "segment"] 2 with
    | [some code, some segment] => return ⟨← ofJson? code, ← ofJson? segment⟩
    | _ => none

namespace Contour

def fieldNames : List String :=
  ["id", "blockNumber", "piercingType", "cuttingType", "piercingPosition", "toolCompensation",
   "declaredSize", "remnant", "leadIn", "approachPath", "cuttingPath", "endCode", "endPosition",
   "web", "allSegments"]

def toJson (c : Contour Float) : Json :=
  object
    [("id", string c.id), ("blockNumber", Snapshot.toJson c.blockNumber),
     ("piercingType", Snapshot.toJson c.piercingType),
     ("cuttingType", Snapshot.toJson c.cuttingType),
     ("piercingPosition", Snapshot.toJson c.piercingPosition),
     ("toolCompensation", Snapshot.toJson c.toolCompensation),
     ("declaredSize", Snapshot.toJson c.declaredSize), ("remnant", bool c.remnant),
     ("leadIn", match c.leadIn with
       | some l => Snapshot.toJson l
       | none => null),
     ("approachPath", Snapshot.toJson c.approachPath),
     ("cuttingPath", Snapshot.toJson c.cuttingPath), ("endCode", Snapshot.toJson c.endCode),
     ("endPosition", Snapshot.toJson c.endPosition), ("web", Snapshot.toJson c.web),
     ("allSegments", Snapshot.toJson c.allSegments)]

def ofJson? (j : Json) : Option (Contour Float) := do
  match ← j.fields? fieldNames 15 with
  | [some id, some blockNumber, some piercingType, some cuttingType, some piercingPosition,
      some toolCompensation, some declaredSize, some remnant, leadIn, some approachPath,
      some cuttingPath, some endCode, some endPosition, some web, some allSegments] =>
    return {
      id := ← Snapshot.ofJson? id
      blockNumber := ← Snapshot.ofJson? blockNumber
      piercingType := ← Snapshot.ofJson? piercingType
      cuttingType := ← Snapshot.ofJson? cuttingType
      piercingPosition := ← Snapshot.ofJson? piercingPosition
      toolCompensation := ← Snapshot.ofJson? toolCompensation
      declaredSize := ← Snapshot.ofJson? declaredSize
      remnant := ← Snapshot.ofJson? remnant
      leadIn := ← optional? Snapshot.ofJson? leadIn
      approachPath := ← Snapshot.ofJson? approachPath
      cuttingPath := ← Snapshot.ofJson? cuttingPath
      endCode := ← Snapshot.ofJson? endCode
      endPosition := ← Snapshot.ofJson? endPosition
      web := ← Snapshot.ofJson? web
      allSegments := ← Snapshot.ofJson? allSegments }
  | _ => none

end Contour

instance : Snapshot (Contour Float) := ⟨Contour.toJson, Contour.ofJson?⟩

instance : Snapshot Material where
  toJson m :=
    object [("material", toJson m.material), ("dbName", string m.dbName),
      ("assistGas", toJson m.assistGas)]
  ofJson? j := do
    match ← j.fields? ["material", "dbName", "assistGas"] 3 with
    | [some m, some d, some g] => return ⟨← ofJson? m, ← ofJson? d, ← ofJson? g⟩
    | _ => none

instance : Snapshot (SheetSetup Float) where
  toJson s :=
    object [("totalParts", toJson s.totalParts), ("width", toJson s.width),
      ("height", toJson s.height)]
  ofJson? j := do
    match ← j.fields? ["totalParts", "width", "height"] 3 with
    | [some n, some w, some h] => return ⟨← ofJson? n, ← ofJson? w, ← ofJson? h⟩
    | _ => none

instance : Snapshot (Placement Float) where
  toJson p :=
    object [("originBlockNumber", toJson p.originBlockNumber), ("origin", toJson p.origin),
      ("rotation", toJson p.rotation), ("partCodeBlock", toJson p.partCodeBlock),
      ("contourCount", toJson p.contourCount)]
  ofJson? j := do
    match ← j.fields? ["originBlockNumber", "origin", "rotation", "partCodeBlock",
        "contourCount"] 5 with
    | [some b, some o, some r, some c, some n] =>
      return ⟨← ofJson? b, ← ofJson? o, ← ofJson? r, ← ofJson? c, ← ofJson? n⟩
    | _ => none

instance : Snapshot (Part Float) where
  toJson p :=
    object [("id", string p.id), ("blockNumber", toJson p.blockNumber),
      ("originBlockNumber", toJson p.originBlockNumber), ("origin", toJson p.origin),
      ("rotation", toJson p.rotation), ("contours", toJson p.contours)]
  ofJson? j := do
    match ← j.fields? ["id", "blockNumber", "originBlockNumber", "origin", "rotation",
        "contours"] 6 with
    | [some i, some b, some n, some o, some r, some c] =>
      return ⟨← ofJson? i, ← ofJson? b, ← ofJson? n, ← ofJson? o, ← ofJson? r, ← ofJson? c⟩
    | _ => none

instance : Snapshot SkippedPart where
  toJson s := object [("partId", string s.partId), ("partCodeBlock", toJson s.partCodeBlock)]
  ofJson? j := do
    match ← j.fields? ["partId", "partCodeBlock"] 2 with
    | [some i, some b] => return ⟨← ofJson? i, ← ofJson? b⟩
    | _ => none

namespace Program

def fieldNames : List String :=
  ["version", "material", "setup", "workpiece", "nesting", "parts", "skippedParts", "rawCommands"]

def toJson (p : Program Float) : Json :=
  let commands := if p.rawCommands.isEmpty then []
    else [("rawCommands", Snapshot.toJson p.rawCommands)]
  object
    ([("version", string p.version), ("material", Snapshot.toJson p.material),
      ("setup", Snapshot.toJson p.setup), ("workpiece", Snapshot.toJson p.workpiece),
      ("nesting", Snapshot.toJson p.placements), ("parts", Snapshot.toJson p.parts),
      ("skippedParts", Snapshot.toJson p.skippedParts)] ++ commands)

def ofJson? (j : Json) : Option (Program Float) := do
  match ← j.fields? fieldNames 7 with
  | [some version, some material, some setup, some workpiece, some placements, some parts,
      some skippedParts, commands] =>
    return {
      version := ← Snapshot.ofJson? version
      material := ← Snapshot.ofJson? material
      setup := ← Snapshot.ofJson? setup
      workpiece := ← Snapshot.ofJson? workpiece
      placements := ← Snapshot.ofJson? placements
      parts := ← Snapshot.ofJson? parts
      skippedParts := ← Snapshot.ofJson? skippedParts
      rawCommands := ← match commands with
        | some c => Snapshot.ofJson? c
        | none => some [] }
  | _ => none

end Program

instance : Snapshot (Program Float) := ⟨Program.toJson, Program.ofJson?⟩

namespace Statistics

def fieldNames : List String :=
  ["partCount", "skippedPartCount", "contourCount", "remnantCount", "pierceCount", "segmentCount",
   "arcCount", "leadInLength", "approachLength", "cuttingLength"]

def toJson (s : Statistics Float) : Json :=
  object
    [("partCount", Snapshot.toJson s.partCount),
     ("skippedPartCount", Snapshot.toJson s.skippedPartCount),
     ("contourCount", Snapshot.toJson s.contourCount),
     ("remnantCount", Snapshot.toJson s.remnantCount),
     ("pierceCount", Snapshot.toJson s.pierceCount),
     ("segmentCount", Snapshot.toJson s.segmentCount), ("arcCount", Snapshot.toJson s.arcCount),
     ("leadInLength", Snapshot.toJson s.leadInLength),
     ("approachLength", Snapshot.toJson s.approachLength),
     ("cuttingLength", Snapshot.toJson s.cuttingLength)]

def ofJson? (j : Json) : Option (Statistics Float) := do
  match ← j.fields? fieldNames 10 with
  | [some parts, some skipped, some contours, some remnants, some pierces, some segments,
      some arcs, some leadIn, some approach, some cutting] =>
    return {
      partCount := ← Snapshot.ofJson? parts
      skippedPartCount := ← Snapshot.ofJson? skipped
      contourCount := ← Snapshot.ofJson? contours
      remnantCount := ← Snapshot.ofJson? remnants
      pierceCount := ← Snapshot.ofJson? pierces
      segmentCount := ← Snapshot.ofJson? segments
      arcCount := ← Snapshot.ofJson? arcs
      leadInLength := ← Snapshot.ofJson? leadIn
      approachLength := ← Snapshot.ofJson? approach
      cuttingLength := ← Snapshot.ofJson? cutting }
  | _ => none

end Statistics

instance : Snapshot (Statistics Float) := ⟨Statistics.toJson, Statistics.ofJson?⟩

end SheetCut
