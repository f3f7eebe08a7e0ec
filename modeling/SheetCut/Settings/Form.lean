import SheetCut.Settings.Basic
import SheetCut.Snapshot.Geometry
import SheetCut.Toml.Quoted
import SheetCut.Toml.Value

/-!
# Written forms of settings

Settings are read in the same way from JSON and from TOML. Sections and fields that are missing
take their defaults, and names that are not known are ignored.
-/

namespace SheetCut

/-- A kind of document that settings can be read from. -/
class SettingsSource (V : Type) where
  /-- The values of a record's fields, by name or by position. -/
  fields? : List String → V → Option (List (Option V))
  float? : V → Option Float
  string? : V → Option String
  bool? : V → Option Bool

instance : SettingsSource Json where
  fields? names := Json.fields? names 0
  float? := Json.float?
  string? := Json.string?
  bool? := Json.bool?

instance : SettingsSource Toml where
  fields? := Toml.fields?
  float? := Toml.float?
  string? := Toml.string?
  bool? := Toml.bool?

open SettingsSource

section Reading

variable {V : Type} [SettingsSource V]

def fieldOr {T : Type} (default : T) (read? : V → Option T) : Option V → Option T
  | some v => read? v
  | none => some default

def StepRange.fieldNames : List String :=
  ["step_size_mm", "min_step_size_mm", "max_step_size_mm"]

def StepRange.ofSource? (v : V) : Option (StepRange Float) := do
  match ← fields? StepRange.fieldNames v with
  | [step, min, max] =>
    return {
      step := ← fieldOr StepRange.default.step float? step
      min := ← fieldOr StepRange.default.min float? min
      max := ← fieldOr StepRange.default.max float? max }
  | _ => none

def Logging.fieldNames : List String := ["level", "json"]

def Logging.ofSource? (v : V) : Option Logging := do
  match ← fields? Logging.fieldNames v with
  | [level, json] =>
    return {
      level := ← fieldOr Logging.default.level string? level
      json := ← fieldOr Logging.default.json bool? json }
  | _ => none

def Settings.fieldNames : List String := ["segmentation", "logging"]

def Settings.ofSource? (v : V) : Option (Settings Float) := do
  match ← fields? Settings.fieldNames v with
  | [steps, logging] =>
    return {
      steps := ← fieldOr StepRange.default StepRange.ofSource? steps
      logging := ← fieldOr Logging.default Logging.ofSource? logging }
  | _ => none

end Reading

open Json Snapshot

instance : Snapshot (StepRange Float) where
  toJson r :=
    object [("step_size_mm", toJson r.step), ("min_step_size_mm", toJson r.min),
      ("max_step_size_mm", toJson r.max)]
  ofJson? := StepRange.ofSource?

instance : Snapshot Logging where
  toJson l := object [("level", toJson l.level), ("json", toJson l.json)]
  ofJson? := Logging.ofSource?

instance : Snapshot (Settings Float) where
  toJson s := object [("segmentation", toJson s.steps), ("logging", toJson s.logging)]
  ofJson? := Settings.ofSource?

namespace Toml

/-- Floats have no exponent and always show a point. -/
def floatLayout : Decimal.Layout where
  tie := .up
  wholePoint := true
  positional := fun _ => true
  exponentPlus := false
  infinity := "inf"
  notANumber := "nan"

def boolText (b : Bool) : String := if b then "true" else "false"

/-- A header and a line for each of its pairs. -/
def sectionText (name : String) (pairs : List (String × String)) : String :=
  "[" ++ name ++ "]\n" ++ String.join (pairs.map fun p => p.1 ++ " = " ++ p.2 ++ "\n")

end Toml

def Settings.tomlText (s : Settings Float) : String :=
  Toml.sectionText "segmentation"
      (StepRange.fieldNames.zip
        ([s.steps.step, s.steps.min, s.steps.max].map Toml.floatLayout.text)) ++
    "\n" ++
    Toml.sectionText "logging"
      (Logging.fieldNames.zip [Toml.quoted s.logging.level, Toml.boolText s.logging.json])

end SheetCut
