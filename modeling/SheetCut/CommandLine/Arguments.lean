import SheetCut.Decimal.Numeral

/-!
# Command line arguments

`mpfview [options] info FILE [--json]` and `mpfview [options] sample FILE [--step-size MM] [--json]`.
The options `--config PATH`, `-v` and `-q` may stand before the task or after it. Arguments are read
from left to right, and the first that is out of place decides what happens.
-/

namespace SheetCut.CommandLine

inductive Task where
  | info (file : String) (json : Bool)
  | sample (file : String) (step : Option Float) (json : Bool)

structure Invocation where
  settingsPath : Option String
  /-- The log level is chosen on the command line. -/
  choosesLevel : Bool
  task : Task

/-- Why there is nothing to run. -/
inductive Stop where
  | usage
  | help
  | release
  deriving DecidableEq

inductive Argument where
  /-- `--`: nothing after it is an option. -/
  | separator
  /-- `--name` or `--name=value` -/
  | long (name : String) (value : Option String)
  /-- `-abc` -/
  | short (letters : List Char)
  | word (text : String)

def Argument.ofText (text : String) : Argument :=
  match text.toList with
  | ['-', '-'] => .separator
  | '-' :: '-' :: cs =>
    .long (String.ofList (cs.takeWhile (· ≠ '=')))
      (match cs.dropWhile (· ≠ '=') with
       | [] => none
       | _ :: value => some (String.ofList value))
  | ['-'] => .word text
  | '-' :: cs => .short cs
  | _ => .word text

/-- Where an argument stands: before the task, or behind its name. -/
inductive Place where
  | front
  | info
  | sample
  deriving DecidableEq

inductive Flag where
  | verbose
  | quiet
  | help
  | release
  | json

def Flag.ofName? : String → Option Flag
  | "verbose" => some verbose
  | "quiet" => some quiet
  | "help" => some help
  | "version" => some release
  | "json" => some json
  | _ => none

def Flag.ofLetter? : Char → Option Flag
  | 'v' => some verbose
  | 'q' => some quiet
  | 'h' => some help
  | 'V' => some release
  | _ => none

inductive Valued where
  | settings
  | step

def Valued.ofName? : String → Option Valued
  | "config" => some settings
  | "step-size" => some step
  | _ => none

/-- What the arguments of one place have said so far. -/
structure Reading where
  settingsPath : Option String
  verbose : Bool
  quiet : Bool
  json : Bool
  step : Option Float
  file : Option String
  /-- The option whose value is still to come. -/
  pending : Option Valued
  /-- A separator was read. -/
  separated : Bool

namespace Reading

def empty : Reading := ⟨none, false, false, false, none, none, none, false⟩

/-- Takes an option without a value. Levels may be repeated. -/
def addFlag (place : Place) (r : Reading) : Flag → Except Stop Reading
  | .verbose => .ok { r with verbose := true }
  | .quiet => .ok { r with quiet := true }
  | .help => .error .help
  | .release => .error (if place = .front then .release else .usage)
  | .json =>
    if place = .front ∨ r.json then .error .usage else .ok { r with json := true }

/-- Takes the value of an option, which must be the first one for it. -/
def addValue (place : Place) (r : Reading) (value : String) : Valued → Except Stop Reading
  | .settings =>
    if r.settingsPath.isSome ∨ value = "" then .error .usage
    else .ok { r with settingsPath := some value, pending := none }
  | .step =>
    match strictFloat? value.toList with
    | some x =>
      if place ≠ .sample ∨ r.step.isSome then .error .usage
      else .ok { r with step := some x, pending := none }
    | none => .error .usage

/-- Takes the file, of which there is only one. -/
def addFile (r : Reading) (file : String) : Except Stop Reading :=
  if r.file.isSome ∨ file = "" then .error .usage else .ok { r with file := some file }

def addLong (place : Place) (r : Reading) (name : String) (value : Option String) :
    Except Stop Reading :=
  match Flag.ofName? name, Valued.ofName? name, value with
  | some flag, _, none => r.addFlag place flag
  | _, some valued, some value => r.addValue place value valued
  | _, some valued, none =>
    if valued matches .step ∧ place ≠ .sample then .error .usage
    else .ok { r with pending := some valued }
  | _, _, _ => .error .usage

def addLetter (place : Place) (r : Reading) (letter : Char) : Except Stop Reading :=
  match Flag.ofLetter? letter with
  | some flag => r.addFlag place flag
  | none => .error .usage

/-- Takes one more argument behind the name of the task. -/
def add (place : Place) (r : Reading) (text : String) : Except Stop Reading :=
  if r.separated then r.addFile text
  else
    match r.pending, Argument.ofText text with
    | some valued, .word value => r.addValue place value valued
    | some _, _ => .error .usage
    | none, .separator => .ok { r with separated := true }
    | none, .long name value => r.addLong place name value
    | none, .short letters => letters.foldlM (addLetter place) r
    | none, .word file => r.addFile file

/-- No value is missing, and the level is not both raised and lowered. -/
def isComplete (r : Reading) : Bool := r.pending.isNone && !(r.verbose && r.quiet)

def choosesLevel (r : Reading) : Bool := r.verbose || r.quiet

def task? (place : Place) (r : Reading) : Option Task :=
  match place, r.file with
  | .info, some file => some (.info file r.json)
  | .sample, some file => some (.sample file r.step r.json)
  | _, _ => none

end Reading

/-- Reads what follows the name of a task, after the arguments in front of it. -/
def readTask (front : Reading) (place : Place) (arguments : List String) :
    Except Stop Invocation := do
  let r ← arguments.foldlM (Reading.add place) Reading.empty
  match r.task? place with
  | some task =>
    if front.isComplete && r.isComplete then
      return ⟨r.settingsPath <|> front.settingsPath, front.choosesLevel || r.choosesLevel, task⟩
    else throw .usage
  | none => throw .usage

/-- What is asked for behind `help`: nothing further, or the name of one task. -/
def explain (topics : List String) : Stop :=
  if [[], ["info"], ["sample"], ["help"]].contains topics then .help else .usage

/-- Reads the arguments in front of the task and then the task. -/
def readFrom (front : Reading) : List String → Except Stop Invocation
  | [] => .error .usage
  | text :: rest =>
    match front.pending, Argument.ofText text with
    | none, .word "info" => readTask front .info rest
    | none, .word "sample" => readTask front .sample rest
    | none, .word "help" => .error (explain rest)
    | none, .word _ => .error .usage
    | none, .separator => .error .usage
    | _, _ => do readFrom (← front.add .front text) rest

def Invocation.ofArguments (arguments : List String) : Except Stop Invocation :=
  readFrom Reading.empty arguments

end SheetCut.CommandLine
