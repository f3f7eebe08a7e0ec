import SheetCut.CommandLine.Run

/-!
# The program

Access to the files of the machine, and the entry point.
-/

namespace SheetCut

/-- The cause of a failure by its number, which may come with a minus sign. -/
def FileError.ofCode? (code : UInt32) : Option FileError :=
  match code.toInt32.toInt.natAbs with
  | 2 => some .notFound
  | 17 => some .alreadyThere
  | 20 => some .notDirectory
  | 21 => some .isDirectory
  | 36 => some .nameTooLong
  | _ => none

def FileError.ofSystem (e : IO.Error) : FileError :=
  let code? : Option UInt32 := match e with
    | .noFileOrDirectory _ code _ => some code
    | .alreadyExists _ code _ => some code
    | .inappropriateType _ code _ => some code
    | .invalidArgument _ code _ => some code
    | _ => none
  (code?.bind ofCode?).getD (.other (toString e))

/-- The result of an action on a path, with its exceptions as values. -/
def attempt {T : Type} (path : String) (action : IO T) : IO (Except FileError T) := do
  if path.toList.contains '\x00' then return .error .nullInName
  match ← action.toBaseIO with
  | .ok x => return .ok x
  | .error e => return .error (FileError.ofSystem e)

instance : FileAccess IO where
  read path := attempt path (IO.FS.readBinFile path)
  doesExist path := do
    match ← attempt path (IO.FS.readBinFile path) with
    | .ok _ => return true
    | .error .isDirectory => return true
    | .error (.other _) => return true
    | .error _ => return false
  write path text := attempt path (IO.FS.writeFile path text)
  createDirectory path := attempt path (IO.FS.createDir path)
  isDirectory path := do
    match ← attempt path (IO.FS.readBinFile path) with
    | .error .isDirectory => return true
    | _ => return false

end SheetCut

open SheetCut in
def main (arguments : List String) : IO UInt32 := do
  let home ← IO.getEnv "HOME"
  let base ← IO.getEnv "XDG_CONFIG_HOME"
  let outcome ← CommandLine.run arguments (Settings.defaultPath? home base)
  IO.print outcome.output
  IO.eprint outcome.errorText
  return outcome.exitCode.toUInt32
