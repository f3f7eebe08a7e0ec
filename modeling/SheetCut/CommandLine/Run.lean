import SheetCut.CommandLine.Arguments
import SheetCut.CommandLine.LogFilter
import SheetCut.CommandLine.Report
import SheetCut.Playback.File
import SheetCut.Settings.File

/-!
# Running a command line

The settings are loaded first, then the level is checked, and then the task is done. What goes wrong
is reported as a list of causes, the outermost one first.
-/

namespace SheetCut.CommandLine

/-- What goes wrong after the arguments have been read. -/
inductive Failure where
  /-- The settings, from a given file or from where they are kept. -/
  | settings (path : Option String) (e : SettingsError)
  | level (filter : String)
  /-- The run breaks off without a report, at the level or at a range of steps that has no order. -/
  | crash
  /-- The program file. -/
  | load (file : String) (e : ReadError)
  /-- The program file or its playback. -/
  | sample (file : String) (e : ReadError)

def fileCauses (e : FileError) : List String := ["I/O error: " ++ e.message, e.message]

def settingsCauses : SettingsError → List String
  | .file e => fileCauses e
  | e => [e.message]

def readCauses : ReadError → List String
  | .file e => fileCauses e
  | e => [e.message]

def Failure.causes : Failure → List String
  | settings (some path) e => ("Failed to load config " ++ path) :: settingsCauses e
  | settings none e => "Failed to load config" :: settingsCauses e
  | level filter => ["Invalid log level '" ++ filter ++ "'"]
  | crash => []
  | load file e => ("Failed to load " ++ file) :: readCauses e
  | sample file e => ("Failed to sample " ++ file) :: readCauses e

def Failure.exitCode : Failure → Nat
  | crash => 101
  | _ => 1

variable {m : Type → Type} [Monad m] [FileAccess m]

/-- The settings of an invocation. Where no file is given they come from `settingsPath`. -/
def loadSettings (i : Invocation) (settingsPath : Option String) :
    m (Except Failure (Settings Float)) := do
  match i.settingsPath with
  | some path => return (← Settings.load path).mapError (.settings (some path))
  | none => return (← Settings.loadOrDefault settingsPath).mapError (.settings none)

/-- The output of a task. A requested step is brought into the range of the settings. -/
def runTask (s : Settings Float) : Task → m (Except Failure String)
  | .info file json => do
    match ← Program.ofFile? file false with
    | .error e => return .error (.load file e)
    | .ok program => return .ok (if json then program.jsonReport else program.report)
  | .sample file step json => do
    match s.steps.clamp? (step.getD s.steps.step) with
    -- Not reached with loaded settings: they are in order, and so are the ends of the range.
    | none => return .error .crash
    | some step =>
      match ← sampleFile file step with
      | .error e => return .error (.sample file e)
      | .ok points =>
        return .ok (if json then PathPoint.jsonReport points else PathPoint.report points)

/-- Checks the level of the settings, unless the command line overrides it. -/
def checkLevel (i : Invocation) (filter : String) : Except Failure Unit :=
  if i.choosesLevel then .ok ()
  else
    (LogFilter.check filter).mapError fun
      | .malformed => .level filter
      | .cut => .crash

def runInvocation (i : Invocation) (settingsPath : Option String) :
    m (Except Failure String) := do
  match ← loadSettings i settingsPath with
  | .error e => return .error e
  | .ok s =>
    match checkLevel i s.logging.level with
    | .error e => return .error e
    | .ok () => runTask s i.task

structure Outcome where
  exitCode : Nat
  output : String
  causes : List String

def release : String := "mpfview 0.3.0"

def usage : String :=
  "Usage: mpfview [--config PATH] [-v | -q] (info FILE | sample FILE [--step-size MM]) [--json]"

def Outcome.ofStop : Stop → Outcome
  | .usage => ⟨2, "", []⟩
  | .help => ⟨0, usage ++ "\n", []⟩
  | .release => ⟨0, release ++ "\n", []⟩

/-- What a run reports on its failure. The causes below the first are numbered if there are several
of them. -/
def Outcome.errorText (o : Outcome) : String :=
  match o.causes with
  | [] => if o.exitCode = 2 then usage ++ "\n" else ""
  | [cause] => "Error: " ++ cause ++ "\n"
  | [attempt, cause] => "Error: " ++ attempt ++ "\n\nCaused by:\n    " ++ cause ++ "\n"
  | attempt :: causes =>
    "Error: " ++ attempt ++ "\n\nCaused by:\n" ++
      String.join (causes.mapIdx fun n cause => "    " ++ toString n ++ ": " ++ cause ++ "\n")

def run (arguments : List String) (settingsPath : Option String) : m Outcome := do
  match Invocation.ofArguments arguments with
  | .error stop => return Outcome.ofStop stop
  | .ok i =>
    match ← runInvocation i settingsPath with
    | .ok output => return ⟨0, output, []⟩
    | .error failure => return ⟨failure.exitCode, "", failure.causes⟩

end SheetCut.CommandLine
