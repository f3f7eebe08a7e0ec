import SheetCut.Text.Piece

/-!
# Paths

A path is a text with `/` between its components. Empty components and single dots do not count.
-/

namespace SheetCut.Path

open Text

/-- The components that say something. -/
def components (path : String) : List (List Char) :=
  (pieces '/' path.toList).filter fun c => c ≠ [] ∧ c ≠ ['.']

def isAbsolute (path : String) : Bool := path.toList.head? == some '/'

def join (dir name : String) : String :=
  if isAbsolute name then name
  else if dir.toList = [] ∨ dir.toList.getLast? = some '/' then dir ++ name
  else dir ++ "/" ++ name

/-- The last component, unless it leads upward. -/
def fileName? (path : String) : Option (List Char) :=
  match (components path).getLast? with
  | some name => if name = ['.', '.'] then none else some name
  | none => none

/-- The text behind the last point of the file name, if there is a point that does not begin the
name. -/
def suffix? (path : String) : Option String :=
  match fileName? path with
  | none => none
  | some name =>
    let behind := (name.reverse.takeWhile (· != '.')).reverse
    let before := name.take (name.length - behind.length - 1)
    if behind.length = name.length ∨ before = [] then none else some (String.ofList behind)

def ofComponents (absolute : Bool) (cs : List (List Char)) : String :=
  (if absolute then "/" else "") ++ String.ofList (List.intercalate ['/'] cs)

/-- The path without its last component, if there is one to take away. -/
def parent? (path : String) : Option String :=
  match components path with
  | [] => none
  | cs => some (ofComponents (isAbsolute path) cs.dropLast)

/-- The path and those above it, the longest first, as far as they have components. -/
def lineage (path : String) : List String :=
  let cs := components path
  (List.range cs.length).map fun n => ofComponents (isAbsolute path) (cs.take (cs.length - n))

end SheetCut.Path
