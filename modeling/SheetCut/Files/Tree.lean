import SheetCut.Files.Access

/-!
# File trees

A file system as a value: the contents of files and the set of directories, by the names on the way
to them from the root. Reading and writing never fail for any other reason than the path and what
the tree holds.
-/

namespace SheetCut

abbrev PathKey := List (List Char)

structure FileTree where
  /-- Relative paths start here. -/
  workingDirectory : PathKey
  content? : PathKey → Option ByteArray
  isDirectory : PathKey → Bool

namespace FileTree

def maxNameSize : Nat := 255

/-- A path has fewer bytes than this. -/
def maxPathSize : Nat := 4096

inductive Entry where
  | file (bytes : ByteArray)
  | directory
  | nothing

/-- Looks up the last name of `k` in the directory that the others lead to. -/
def entry (t : FileTree) (k : PathKey) : Except FileError Entry :=
  if maxNameSize < (String.ofList (k.getLast?.getD [])).utf8ByteSize then .error .nameTooLong
  else if t.isDirectory k then .ok .directory
  else match t.content? k with
    | some bytes => .ok (.file bytes)
    | none => .ok .nothing

/-- Where a component leads from a directory that is there. It must lead to a directory. -/
def enter (t : FileTree) (k : PathKey) (c : List Char) : Except FileError PathKey :=
  if c = ['.'] then .ok k
  else if c = ['.', '.'] then .ok k.dropLast
  else do
    match ← t.entry (k ++ [c]) with
    | .directory => return k ++ [c]
    | .file _ => throw .notDirectory
    | .nothing => throw .notFound

/-- What a path leads to. -/
inductive Goal where
  /-- A directory that is there, because the path ends with dots or is the root. -/
  | directory (k : PathKey)
  /-- A name in a directory that is there. With a slash behind it the name is meant for a
  directory. -/
  | name (k : PathKey) (slash : Bool)

/-- The end of a path behind the directory that its other components lead to. -/
def Goal.ofLast (k : PathKey) (slash : Bool) (c : List Char) : Goal :=
  if c = ['.'] then directory k
  else if c = ['.', '.'] then directory k.dropLast
  else name (k ++ [c]) slash

/-- Follows a path component by component. Two dots lead upward only from a directory that is
there. -/
def follow (t : FileTree) (path : String) : Except FileError Goal :=
  let cs := (Text.pieces '/' path.toList).filter (· ≠ [])
  let start := if Path.isAbsolute path then [] else t.workingDirectory
  let slash := path.toList.getLast? == some '/'
  if path.toList.contains '\x00' then .error .nullInName
  else if path = "" then .error .notFound
  else if maxPathSize ≤ path.utf8ByteSize then .error .nameTooLong
  else match cs.getLast? with
    | none => .ok (.directory start)
    | some last => (cs.dropLast.foldlM t.enter start).map fun k => .ofLast k slash last

def read (t : FileTree) (path : String) : Except FileError ByteArray := do
  match ← t.follow path with
  | .directory _ => throw .isDirectory
  | .name k slash =>
    match ← t.entry k with
    | .file bytes => if slash then throw .notDirectory else return bytes
    | .directory => throw .isDirectory
    | .nothing => throw .notFound

/-- A directory cannot be read, and this tells it from what is not there. -/
def hasDirectory (t : FileTree) (path : String) : Bool := t.read path matches .error .isDirectory

def doesExist (t : FileTree) (path : String) : Bool :=
  t.hasDirectory path || t.read path matches .ok _

def put (t : FileTree) (k : PathKey) (bytes : ByteArray) : FileTree :=
  { t with content? := fun k' => if k' = k then some bytes else t.content? k' }

def putDirectory (t : FileTree) (k : PathKey) : FileTree :=
  { t with isDirectory := fun k' => k' == k || t.isDirectory k' }

def write (t : FileTree) (path : String) (bytes : ByteArray) : Except FileError FileTree := do
  match ← t.follow path with
  | .directory _ => throw .isDirectory
  | .name k slash =>
    if slash then throw .isDirectory
    match ← t.entry k with
    | .directory => throw .isDirectory
    | _ => return t.put k bytes

def createDirectory (t : FileTree) (path : String) : Except FileError FileTree := do
  match ← t.follow path with
  | .directory _ => throw .alreadyThere
  | .name k _ =>
    match ← t.entry k with
    | .nothing => return t.putDirectory k
    | _ => throw .alreadyThere

/-- A change of the tree that may fail and then leaves it as it is. -/
def update (change : FileTree → Except FileError FileTree) :
    StateM FileTree (Except FileError Unit) := fun t =>
  match change t with
  | .ok t' => (.ok (), t')
  | .error e => (.error e, t)

instance : FileAccess (StateM FileTree) where
  read path := fun t => (t.read path, t)
  doesExist path := fun t => (t.doesExist path, t)
  write path text := update fun t => t.write path text.toUTF8
  createDirectory path := update fun t => t.createDirectory path
  isDirectory path := fun t => (t.hasDirectory path, t)

/-- The tree that has nothing but the working directory and those above it. -/
def bare (workingDirectory : String) : FileTree :=
  let k := Path.components workingDirectory
  { workingDirectory := k
    content? := fun _ => none
    isDirectory := fun k' => k'.isPrefixOf k }

/-- Puts in a file, with the directories that it needs. -/
def place (path : String) (bytes : ByteArray) : StateM FileTree (Except FileError Unit) := do
  match ← createDirectories ((Path.parent? path).getD "") with
  | .ok () => update fun t => t.write path bytes
  | .error e => return .error e

/-- The tree with those of these files that can be put in. -/
def ofFiles (workingDirectory : String) (files : List (String × ByteArray)) : FileTree :=
  files.foldl (fun t f => (place f.1 f.2 t).2) (bare workingDirectory)

end FileTree

end SheetCut
