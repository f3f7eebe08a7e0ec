import SheetCut.Decimal.Layout
import SheetCut.Scalar
import SheetCut.Text.Blank

/-!
# Settings

The sampling distance with its range, and the log output. Settings are checked whenever they are
loaded or saved, so that a requested distance can always be brought into the range.
-/

namespace SheetCut

/-- The sampling distance in millimetres, and the range that requests are brought into. -/
structure StepRange (α : Type) where
  step : α
  min : α
  max : α

structure Logging where
  level : String
  json : Bool
  deriving DecidableEq

structure Settings (α : Type) where
  steps : StepRange α
  logging : Logging

/-- The first of the settings that is out of order. -/
inductive SettingFault (α : Type) where
  | minStep
  | maxStep
  | step (range : StepRange α)
  | level

namespace StepRange

variable {α : Type} [Scalar α]

/-- From half a millimetre to a hundred. -/
def default : StepRange α where
  step := 1
  min := 1 / ((2 : Nat) : α)
  max := ((100 : Nat) : α)

/-- The scalar in the range that is nearest to `x`; `none` if the range has its ends the wrong way
round or not numbers. -/
def clampFinite? (r : StepRange α) (x : α) : Option α :=
  if r.min ≤ r.max then
    let x := if x < r.min then r.min else x
    some (if r.max < x then r.max else x)
  else none

/-- The distance to use where `x` is requested. A request that is not finite gives the configured
one as it is. -/
def clamp? (r : StepRange α) (x : α) : Option α :=
  if Scalar.isFinite x then r.clampFinite? x else some r.step

def fault? (r : StepRange α) : Option (SettingFault α) :=
  if ¬ (Scalar.isFinite r.min ∧ 0 < r.min) then some .minStep
  else if ¬ (Scalar.isFinite r.max ∧ r.min ≤ r.max) then some .maxStep
  else if ¬ (r.min ≤ r.step ∧ r.step ≤ r.max) then some (.step r)
  else none

end StepRange

namespace Logging

def default : Logging := ⟨"info", false⟩

/-- A level must hold something other than blanks. -/
def hasLevel (l : Logging) : Bool := Text.trim l.level.toList != []

end Logging

namespace Settings

variable {α : Type} [Scalar α]

def default : Settings α := ⟨StepRange.default, Logging.default⟩

def fault? (s : Settings α) : Option (SettingFault α) :=
  match s.steps.fault? with
  | some fault => some fault
  | none => if s.logging.hasLevel then none else some .level

end Settings

namespace SettingFault

def key {α : Type} : SettingFault α → String
  | minStep => "segmentation.min_step_size_mm"
  | maxStep => "segmentation.max_step_size_mm"
  | step _ => "segmentation.step_size_mm"
  | level => "logging.level"

def reason : SettingFault Float → String
  | minStep => "must be > 0"
  | maxStep => "must be >= min_step_size_mm"
  | step r => "must be within " ++ Decimal.plain.text r.min ++ " to " ++ Decimal.plain.text r.max
  | level => "must not be empty"

def message (f : SettingFault Float) : String :=
  "Invalid setting '" ++ f.key ++ "': " ++ f.reason

end SettingFault

end SheetCut
