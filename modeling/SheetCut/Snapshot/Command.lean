import SheetCut.Command.Basic
import SheetCut.Snapshot.Geometry

/-!
# Snapshots of commands

A command carries its kind in `type` and its content in `value`; a macro call carries its own kind
in `name`, next to its fields. Absent words of a motion are left out.
-/

namespace SheetCut

open Json Snapshot

instance {t : CodeTable} : Snapshot (Code t) where
  toJson c := toJson c.value
  ofJson? j := (int32? j).map Code.mk

def named (name : String) (fields : List (String × Json)) : Json :=
  object (("name", string name) :: fields)

namespace MacroCall

def toJson : MacroCall Float → Json
  | loadDatabase material dbName assistGas =>
    named "loadDatabase" [("material", Snapshot.toJson material), ("dbName", Snapshot.toJson dbName),
      ("assistGas", Snapshot.toJson assistGas)]
  | init totalParts width height =>
    named "init" [("totalParts", Snapshot.toJson totalParts), ("width", Snapshot.toJson width),
      ("height", Snapshot.toJson height)]
  | partOrigin x y rotation partCodeBlock contourCount =>
    named "partOrigin" [("x", Snapshot.toJson x), ("y", Snapshot.toJson y),
      ("rotation", Snapshot.toJson rotation), ("partCodeBlock", Snapshot.toJson partCodeBlock),
      ("contourCount", Snapshot.toJson contourCount)]
  | partProgram => named "partProgram" []
  | contourStart piercingType cuttingType x y toolCompensation width height =>
    named "contourStart" [("piercingType", Snapshot.toJson piercingType),
      ("cuttingType", Snapshot.toJson cuttingType), ("x", Snapshot.toJson x),
      ("y", Snapshot.toJson y), ("toolCompensation", Snapshot.toJson toolCompensation),
      ("width", Snapshot.toJson width), ("height", Snapshot.toJson height)]
  | pierce => named "pierce" []
  | leadIn code x y i j =>
    named "leadIn" [("code", Snapshot.toJson code), ("x", Snapshot.toJson x),
      ("y", Snapshot.toJson y), ("i", Snapshot.toJson i), ("j", Snapshot.toJson j)]
  | startCut => named "startCut" []
  | contourEnd code x y i j web =>
    named "contourEnd" [("code", Snapshot.toJson code), ("x", Snapshot.toJson x),
      ("y", Snapshot.toJson y), ("i", Snapshot.toJson i), ("j", Snapshot.toJson j),
      ("web", Snapshot.toJson web)]
  | partEnd => named "partEnd" []
  | programEnd => named "programEnd" []
  | remnantStart cuttingType cuttingKind x y =>
    named "remnantStart" [("cuttingType", Snapshot.toJson cuttingType),
      ("cuttingKind", Snapshot.toJson cuttingKind), ("x", Snapshot.toJson x),
      ("y", Snapshot.toJson y)]
  | remnantPhase phase => named "remnantPhase" [("phase", Snapshot.toJson phase)]

def bare? (rest : Json) (c : MacroCall Float) : Option (MacroCall Float) :=
  if rest.isBare then some c else none

/-- The call of the given kind, read from the rest of its object or array. -/
def ofFields? (name : String) (rest : Json) : Option (MacroCall Float) := do
  match name with
  | "loadDatabase" =>
    match ← rest.fields? ["material", "dbName", "assistGas"] 3 with
    | [some m, some d, some g] => return loadDatabase (← ofJson? m) (← ofJson? d) (← ofJson? g)
    | _ => none
  | "init" =>
    match ← rest.fields? ["totalParts", "width", "height"] 3 with
    | [some n, some w, some h] => return init (← ofJson? n) (← ofJson? w) (← ofJson? h)
    | _ => none
  | "partOrigin" =>
    match ← rest.fields? ["x", "y", "rotation", "partCodeBlock", "contourCount"] 5 with
    | [some x, some y, some r, some b, some n] =>
      return partOrigin (← ofJson? x) (← ofJson? y) (← ofJson? r) (← ofJson? b) (← ofJson? n)
    | _ => none
  | "partProgram" => bare? rest partProgram
  | "contourStart" =>
    match ← rest.fields? ["piercingType", "cuttingType", "x", "y", "toolCompensation", "width",
        "height"] 7 with
    | [some p, some c, some x, some y, some t, some w, some h] =>
      return contourStart (← ofJson? p) (← ofJson? c) (← ofJson? x) (← ofJson? y) (← ofJson? t)
        (← ofJson? w) (← ofJson? h)
    | _ => none
  | "pierce" => bare? rest pierce
  | "leadIn" =>
    match ← rest.fields? ["code", "x", "y", "i", "j"] 5 with
    | [some c, some x, some y, some i, some j] =>
      return leadIn (← ofJson? c) (← ofJson? x) (← ofJson? y) (← ofJson? i) (← ofJson? j)
    | _ => none
  | "startCut" => bare? rest startCut
  | "contourEnd" =>
    match ← rest.fields? ["code", "x", "y", "i", "j", "web"] 6 with
    | [some c, some x, some y, some i, some j, some w] =>
      return contourEnd (← ofJson? c) (← ofJson? x) (← ofJson? y) (← ofJson? i) (← ofJson? j)
        (← ofJson? w)
    | _ => none
  | "partEnd" => bare? rest partEnd
  | "programEnd" => bare? rest programEnd
  | "remnantStart" =>
    match ← rest.fields? ["cuttingType", "cuttingKind", "x", "y"] 4 with
    | [some c, some k, some x, some y] =>
      return remnantStart (← ofJson? c) (← ofJson? k) (← ofJson? x) (← ofJson? y)
    | _ => none
  | "remnantPhase" =>
    match ← rest.fields? ["phase"] 1 with
    | [some p] => return remnantPhase (← ofJson? p)
    | _ => none
  | _ => none

def kinds : List String :=
  ["loadDatabase", "init", "partOrigin", "partProgram", "contourStart", "pierce", "leadIn",
   "startCut", "contourEnd", "partEnd", "programEnd", "remnantStart", "remnantPhase"]

def ofJson? (held : Bool) (j : Json) : Option (MacroCall Float) := do
  let (name, rest) ← j.tagged? "name" kinds held
  ofFields? name rest

end MacroCall

instance : Snapshot (MacroCall Float) := ⟨MacroCall.toJson, MacroCall.ofJson? false⟩

namespace Motion

/-- The member for a word, if the motion has the word. -/
def wordMember (name : String) (value : Option Float) : List (String × Json) :=
  value.toList.map fun x => (name, Snapshot.toJson x)

def toJson (m : Motion Float) : Json :=
  object (("mnemonic", string m.mnemonic) :: (wordMember "x" m.x ++ wordMember "y" m.y ++
    wordMember "z" m.z ++ wordMember "i" m.i ++ wordMember "j" m.j ++ wordMember "f" m.f))

def ofJson? (json : Json) : Option (Motion Float) := do
  match ← json.fields? ["mnemonic", "x", "y", "z", "i", "j", "f"] 7 with
  | [some mnemonic, x, y, z, i, j, f] =>
    return {
      mnemonic := ← Snapshot.ofJson? mnemonic
      x := ← optional? Snapshot.ofJson? x
      y := ← optional? Snapshot.ofJson? y
      z := ← optional? Snapshot.ofJson? z
      i := ← optional? Snapshot.ofJson? i
      j := ← optional? Snapshot.ofJson? j
      f := ← optional? Snapshot.ofJson? f }
  | _ => none

end Motion

instance : Snapshot (Motion Float) := ⟨Motion.toJson, Motion.ofJson?⟩

namespace Command

def toJson : Command Float → Json
  | comment text => object [("type", string "comment"), ("value", string text)]
  | blockMarker n => object [("type", string "blockMarker"), ("value", Snapshot.toJson n)]
  | call c => object [("type", string "macro"), ("value", Snapshot.toJson c)]
  | motion m => object [("type", string "motion"), ("value", Snapshot.toJson m)]

def ofJson? (j : Json) : Option (Command Float) := do
  match ← j.tagAndContent? "type" "value" with
  | ("comment", value, _) => return comment (← Snapshot.ofJson? value)
  | ("blockMarker", value, _) => return blockMarker (← Snapshot.ofJson? value)
  | ("macro", value, held) => return call (← MacroCall.ofJson? held value)
  | ("motion", value, _) => return motion (← Snapshot.ofJson? value)
  | _ => none

end Command

instance : Snapshot (Command Float) := ⟨Command.toJson, Command.ofJson?⟩

end SheetCut
