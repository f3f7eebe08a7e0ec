import SheetCut.Command.Call
import SheetCut.Command.Word

/-!
# Lines of commands

A program is read line by line. A line gives the block numbers at its head and at most one other
command; a line that is not recognized, and all that follows a block number out of range, is
dropped.
-/

namespace SheetCut

open Text

namespace Command

/-- The digits of a block number at the head of a line, and the text after them. -/
def blockHead? : List Char → Option (List Char × List Char)
  | 'N' :: cs =>
    let number := cs.takeWhile isDigit
    if number = [] then none else some (number, cs.dropWhile isDigit)
  | _ => none

theorem length_of_blockHead? {line number rest : List Char}
    (h : blockHead? line = some (number, rest)) : rest.length < line.length := by
  unfold blockHead? at h
  split at h
  · next cs =>
    have hle := (List.dropWhile_sublist isDigit (l := cs)).length_le
    simp only at h
    split at h
    · cases h
    · cases h
      simp only [List.length_cons]
      omega
  · cases h

variable {α : Type} [Scalar α]

/-- The command on a line that neither is a comment nor begins with a block number. -/
def ofBody (line : List Char) : List (Command α) :=
  if ['H', 'K'].isPrefixOf line then (MacroCall.ofLine? line).toList.map call
  else if (Motion.mnemonic? line).isSome || line.head?.any (fun c => c == 'X' || c == 'Y' || c == 'Z')
  then [motion (Motion.ofLine line)]
  else []

/-- The commands on a line. What follows a block number is trimmed and read as a line again. -/
def ofLine (line : List Char) : List (Command α) :=
  match line with
  | ';' :: text => [comment (String.ofList (trim text))]
  | line =>
    match _h : blockHead? line with
    | none => ofBody line
    | some (number, rest) =>
      match uint32? number with
      | none => []
      | some n => blockMarker n :: ofLine (trim rest)
termination_by line.length
decreasing_by
  have := length_trim_le rest
  have := length_of_blockHead? _h
  omega

def ofText (text : String) : List (Command α) :=
  (pieces '\n' text.toList).flatMap fun line => ofLine (trim line)

end Command

end SheetCut
