import SheetCut.Pattern.Atom

/-!
# Sets of characters in search patterns

Sets such as `[^a-z&&[:alpha:]]`: characters, ranges, kinds and sets within sets, with operators
between them. A set is read for its height only, the number of parts that stand in each other.
-/

namespace SheetCut.Pattern

/-- The height of parts that stand side by side, which counts only where there are several. -/
def rowHeight : List Nat → Nat
  | [] => 0
  | [h] => h
  | hs => hs.foldl max 0 + 1

/-- A character or an escape inside a set. Where sets are about bytes they have ASCII only. -/
def readMember? (m : Mode) (cs : List Char) : Option (Atom × List Char) := do
  let (a, rest) ← match cs with
    | '\\' :: rest => readEscape? m rest
    | c :: rest => some (.literal c, rest)
    | [] => none
  match a with
  | .literal c => if m.unicode || c.toNat < 128 then some (a, rest) else none
  | .kind => some (a, rest)
  | .place => none

/-- The text behind a member or a range of characters, which must be in order. A dash in front of a
closing bracket or of another dash is no range. -/
def readRange? (m : Mode) (cs : List Char) : Option (List Char) := do
  let (first, rest) ← readMember? m cs
  match m.skip rest with
  | [] => none
  | '-' :: behind =>
    if m.peek? behind = some ']' ∨ m.peek? behind = some '-' then some ('-' :: behind)
    else
      match first, ← readMember? m (m.skip behind) with
      | .literal a, (.literal b, rest) => if a ≤ b then some rest else none
      | _, _ => none
  | rest => some rest

def namedSets : List String :=
  ["alnum", "alpha", "ascii", "blank", "cntrl", "digit", "graph", "lower", "print", "punct",
   "space", "upper", "word", "xdigit"]

/-- A set by its name, from the character behind its bracket: whether it is the complement, and the
text behind it. -/
def readNamed? : List Char → Option (Bool × List Char)
  | ':' :: cs =>
    let complement := cs.head? == some '^'
    let cs := if complement then cs.drop 1 else cs
    let name := cs.takeWhile (· != ':')
    match cs.drop name.length with
    | ':' :: ']' :: rest =>
      if namedSets.contains (String.ofList name) then some (complement, rest) else none
    | _ => none
  | _ => none

structure OpenSet where
  /-- Nothing but dashes was read. -/
  fresh : Bool
  /-- The height of what stands in front of the last operator. -/
  left : Option Nat
  /-- The heights of the members behind it. -/
  members : List Nat

namespace OpenSet

def empty : OpenSet := ⟨true, none, []⟩

def add (s : OpenSet) (height : Nat) : OpenSet :=
  { s with fresh := false, members := height :: s.members }

def height (s : OpenSet) : Nat :=
  match s.left with
  | some left => max left (rowHeight s.members) + 1
  | none => rowHeight s.members

def operate (s : OpenSet) : OpenSet := ⟨false, some s.height, []⟩

end OpenSet

/-- The text behind the caret of a complement, or behind no caret. There is no complement of a set
of bytes. -/
def readCaret? (m : Mode) (cs : List Char) : Option (List Char) :=
  match m.skip cs with
  | '^' :: rest => if m.unicode then some rest else none
  | rest => some rest

/-- The height of a set and the text behind it. Dashes at its head are members, and so is a closing
bracket there. -/
def readSet? (m : Mode) : Nat → OpenSet → List Char → Option (Nat × List Char)
  | 0, _, _ => none
  | fuel + 1, s, cs =>
    match m.skip cs with
    | '-' :: '-' :: rest =>
      if s.fresh then readSet? m fuel { s with members := 0 :: s.members } ('-' :: rest)
      else readSet? m fuel s.operate rest
    | '&' :: '&' :: rest => readSet? m fuel s.operate rest
    | '~' :: '~' :: rest => readSet? m fuel s.operate rest
    | ']' :: rest =>
      if s.fresh && s.members.isEmpty then readSet? m fuel (s.add 0) rest
      else some (s.height + 1, rest)
    | '[' :: rest =>
      match readNamed? rest with
      | some (complement, rest) =>
        if complement && !m.unicode then none else readSet? m fuel (s.add 0) rest
      | none => do
        let (inner, rest) ← readSet? m fuel .empty (← readCaret? m rest)
        readSet? m fuel (s.add inner) rest
    | '-' :: rest =>
      if s.fresh then readSet? m fuel { s with members := 0 :: s.members } rest
      else do readSet? m fuel (s.add 0) (← readRange? m ('-' :: rest))
    | rest => do readSet? m fuel (s.add 0) (← readRange? m rest)

end SheetCut.Pattern
