import SheetCut.Files.Path

/-!
# Access to files

Whatever reads or writes files is written over this class, so that it can run on the machine and on
a file tree that is a plain value.
-/

namespace SheetCut

inductive FileError where
  | notFound
  | isDirectory
  | notDirectory
  | alreadyThere
  | nameTooLong
  /-- There is a null character in the path. -/
  | nullInName
  /-- The content is not UTF-8. -/
  | notText
  | other (message : String)

def FileError.message : FileError → String
  | notFound => "No such file or directory (os error 2)"
  | isDirectory => "Is a directory (os error 21)"
  | notDirectory => "Not a directory (os error 20)"
  | alreadyThere => "File exists (os error 17)"
  | nameTooLong => "File name too long (os error 36)"
  | nullInName => "file name contained an unexpected NUL byte"
  | notText => "stream did not contain valid UTF-8"
  | other message => message

/-- A computation that can use files. Paths are texts with `/` between their components. -/
class FileAccess (m : Type → Type) where
  read : String → m (Except FileError ByteArray)
  doesExist : String → m Bool
  write : String → String → m (Except FileError Unit)
  createDirectory : String → m (Except FileError Unit)
  isDirectory : String → m Bool

section

variable {m : Type → Type} [Monad m] [FileAccess m]

def readText (path : String) : m (Except FileError String) := do
  match ← FileAccess.read path with
  | .error e => return .error e
  | .ok bytes =>
    match String.fromUTF8? bytes with
    | some text => return .ok text
    | none => return .error .notText

/-- Creates a directory. It is no error if it is there in the end. -/
def ensureDirectory (path : String) : m (Except FileError Unit) := do
  match ← FileAccess.createDirectory path with
  | .ok () => return .ok ()
  | .error e => if ← FileAccess.isDirectory path then return .ok () else return .error e

/-- Creates the first of the directories. Each is inside the next one, and as many of these as are
missing are created before it. -/
def createRow : List String → m (Except FileError Unit)
  | [] => return .ok ()
  | path :: above => do
    match ← ensureDirectory path with
    | .error .notFound =>
      match ← createRow above with
      | .ok () => ensureDirectory path
      | .error e => return .error e
    | result => return result

def createDirectories (path : String) : m (Except FileError Unit) := createRow (Path.lineage path)

end

end SheetCut
