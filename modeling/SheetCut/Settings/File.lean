import SheetCut.Files.Access
import SheetCut.Files.Path
import SheetCut.Json.Printer
import SheetCut.Json.Reader
import SheetCut.Settings.Form
import SheetCut.Toml.Reader

/-!
# Settings files

Loading and saving settings. The format is chosen by the suffix of the file name. Settings are
checked and the format is chosen before anything is written.
-/

namespace SheetCut

inductive SettingsError where
  | invalid (fault : SettingFault Float)
  | unsupported (suffix : Option String)
  | file (e : FileError)
  /-- The text is not a JSON document of settings. -/
  | json
  /-- The text is not a TOML document of settings. -/
  | toml

/-- The message; for a text that cannot be read only its kind. -/
def SettingsError.message : SettingsError → String
  | invalid fault => fault.message
  | unsupported suffix => "Unsupported config format: " ++ suffix.getD "<none>"
  | file e => "I/O error: " ++ e.message
  | json => "JSON error"
  | toml => "TOML error"

inductive SettingsFormat where
  | json
  | toml
  deriving DecidableEq

def SettingsFormat.ofPath? (path : String) : Except SettingsError SettingsFormat :=
  match Path.suffix? path with
  | some "json" => .ok .json
  | some "toml" => .ok .toml
  | suffix => .error (.unsupported suffix)

namespace Settings

/-- Settings that are in order, or what is wrong with them. -/
def checked (s : Settings Float) : Except SettingsError (Settings Float) :=
  match s.fault? with
  | some fault => .error (.invalid fault)
  | none => .ok s

def text (s : Settings Float) : SettingsFormat → String
  | .json => (Snapshot.toJson s).pretty
  | .toml => s.tomlText

/-- The settings that a text writes. They need not be in order. -/
def ofText? (text : String) : SettingsFormat → Except SettingsError (Settings Float)
  | .json => ((Json.ofText? text).bind ofSource?).elim (.error .json) .ok
  | .toml => ((Toml.ofText? text).bind ofSource?).elim (.error .toml) .ok

variable {m : Type → Type} [Monad m] [FileAccess m]

def load (path : String) : m (Except SettingsError (Settings Float)) := do
  match SettingsFormat.ofPath? path with
  | .error e => return .error e
  | .ok format =>
    match ← readText path with
    | .error e => return .error (.file e)
    | .ok text => return (ofText? text format).bind checked

/-- The settings in a file, or the defaults where there is no such file. -/
def loadOrDefault (path : Option String) : m (Except SettingsError (Settings Float)) := do
  match path with
  | none => return .ok default
  | some path =>
    if ← FileAccess.doesExist path then load path else return .ok default

/-- The directory of a path, if it has one that needs to be there first. -/
def directory? (path : String) : Option String := (Path.parent? path).filter (· ≠ "")

/-- Writes the settings to a file, with the directories on the way to it. -/
def save (s : Settings Float) (path : String) : m (Except SettingsError Unit) := do
  match s.checked, SettingsFormat.ofPath? path with
  | .error e, _ => return .error e
  | .ok _, .error e => return .error e
  | .ok s, .ok format =>
    let made ← match directory? path with
      | some directory => createDirectories directory
      | none => pure (.ok ())
    match made with
    | .error e => return .error (.file e)
    | .ok () => return (← FileAccess.write path (s.text format)).mapError .file

/-- Where settings are kept: below the configuration directory `base` if it is an absolute path,
else below the home directory if there is one. -/
def defaultPath? (home base : Option String) : Option String :=
  let directory :=
    match base.filter Path.isAbsolute with
    | some base => some base
    | none => (home.filter (· ≠ "")).map (Path.join · ".config")
  directory.map fun d => Path.join (Path.join d "mpfview") "config.toml"

end Settings

end SheetCut
