import SheetCut.Toml.Document
import SheetCut.Toml.Quoted
import SheetCut.Toml.Word

/-!
# Reading TOML

Every reader takes a text and gives what it read and the text after it. A document is read as a
list of statements, one to a line unless its value goes over several lines.
-/

namespace SheetCut.Toml

/-- Brackets and braces, and the parts of a key, are nested less deeply than this. -/
def nestingLimit : Nat := 80

def skipSpace (cs : List Char) : List Char := cs.dropWhile isSpace

def skipComment : List Char → List Char
  | '#' :: cs => cs.dropWhile (!isControl ·)
  | cs => cs

/-- The text after blanks, line ends and comments; `comment` says that it begins inside a
comment. -/
def skipLines (comment : Bool) : List Char → List Char
  | [] => []
  | c :: cs =>
    if c = '\n' then skipLines false cs
    else if comment then (if isControl c then c :: cs else skipLines true cs)
    else if isSpace c then skipLines false cs
    else if c = '#' then skipLines true cs
    else c :: cs

/-- The text after the end of the line, if nothing but blanks and a comment stands before it. -/
def lineEnd? (cs : List Char) : Option (List Char) :=
  match skipComment (skipSpace cs) with
  | [] => some []
  | '\n' :: rest => some rest
  | _ => none

def isBareKeyChar (c : Char) : Bool := c.isAlphanum || c == '_' || c == '-'

def readKeyPart? (cs : List Char) : Option (String × List Char) :=
  match readPlain? cs with
  | some (part, rest) => some (String.ofList part, rest)
  | none =>
    let part := cs.takeWhile isBareKeyChar
    if part = [] then none else some (String.ofList part, cs.dropWhile isBareKeyChar)

/-- The parts of a key and the text after it and its blanks. -/
def readParts? (cs : List Char) : Option (List String × List Char) :=
  match readKeyPart? (skipSpace cs) with
  | none => none
  | some (part, rest) =>
    match skipSpace rest with
    | '.' :: more =>
      if more.length < cs.length then (readParts? more).map fun r => (part :: r.1, r.2) else none
    | rest => some ([part], rest)
termination_by cs.length

def readKey? (cs : List Char) : Option (List String × List Char) :=
  (readParts? cs).bind fun r => if r.1.length < nestingLimit then some r else none

/-- A value without brackets or braces. -/
def readAtom? (cs : List Char) : Option (Toml × List Char) :=
  if cs.head? = some quote ∨ cs.head? = some apostrophe then
    (readString? cs).map fun r => (string (String.ofList r.1), r.2)
  else (ofWord? (takeWord cs).1).map (·, (takeWord cs).2)

/-- A key, an equals sign and a value. -/
def readPair? (value? : List Char → Option (Toml × List Char)) (cs : List Char) :
    Option ((List String × Toml) × List Char) :=
  match readKey? cs with
  | some (key, '=' :: rest) => (value? (skipSpace rest)).map fun r => ((key, r.1), r.2)
  | _ => none

/-- The items of an array up to its closing bracket. There may be a comma in front of it. -/
def readItems? (value? : List Char → Option (Toml × List Char)) (cs : List Char) :
    Option (List Toml × List Char) :=
  match skipLines false cs with
  | ']' :: rest => some ([], rest)
  | body =>
    match value? body with
    | none => none
    | some (item, rest) =>
      match skipLines false rest with
      | ']' :: rest => some ([item], rest)
      | ',' :: rest =>
        if rest.length < cs.length then (readItems? value? rest).map fun r => (item :: r.1, r.2)
        else none
      | _ => none
termination_by cs.length

/-- The pairs of a table in braces up to its closing brace, at least one. -/
def readPairs? (value? : List Char → Option (Toml × List Char)) (cs : List Char) :
    Option (List (List String × Toml) × List Char) :=
  match readPair? value? cs with
  | none => none
  | some (pair, rest) =>
    match skipSpace rest with
    | '\x7d' :: rest => some ([pair], rest)
    | ',' :: rest =>
      if rest.length < cs.length then (readPairs? value? rest).map fun r => (pair :: r.1, r.2)
      else none
    | _ => none
termination_by cs.length

def inlineTable? (pairs : List (List String × Toml)) : Option Toml :=
  (pairs.foldlM (fun es p => Entries.define p.2 p.1 es) []).map (table .inline)

/-- The value at the head of the text, with at most `depth` brackets and braces around each
other. -/
def readValue? : Nat → List Char → Option (Toml × List Char)
  | 0, cs => readAtom? cs
  | depth + 1, cs =>
    match cs with
    | '[' :: rest => (readItems? (readValue? depth) rest).map fun r => (array r.1, r.2)
    | '\x7b' :: rest =>
      match skipSpace rest with
      | '\x7d' :: rest => some (table .inline [], rest)
      | rest =>
        (readPairs? (readValue? depth) rest).bind fun r => (inlineTable? r.1).map (·, r.2)
    | cs => readAtom? cs

/-- The statement at the head of the text, without its line end. -/
def readStatement? : List Char → Option (Statement × List Char)
  | '[' :: '[' :: cs =>
    match readKey? cs with
    | some (path, ']' :: ']' :: rest) => some (.element path, rest)
    | _ => none
  | '[' :: cs =>
    match readKey? cs with
    | some (path, ']' :: rest) => some (.header path, rest)
    | _ => none
  | cs => (readPair? (readValue? (nestingLimit - 1)) cs).map fun r => (.pair r.1.1 r.1.2, r.2)

def readStatements? (cs : List Char) : Option (List Statement) :=
  if cs = [] then some []
  else
    match lineEnd? cs with
    | some rest => if rest.length < cs.length then readStatements? rest else none
    | none =>
      match readStatement? (skipSpace cs) with
      | none => none
      | some (statement, rest) =>
        match lineEnd? rest with
        | some rest =>
          if rest.length < cs.length then (readStatements? rest).map (statement :: ·) else none
        | none => none
termination_by cs.length

/-- Replaces every pair of carriage return and line feed by the latter. -/
def joinLineEnds : List Char → List Char
  | '\r' :: '\n' :: cs => '\n' :: joinLineEnds cs
  | c :: cs => c :: joinLineEnds cs
  | [] => []

/-- The text without the byte order mark that it may begin with. -/
def dropMark : List Char → List Char
  | '\ufeff' :: cs => cs
  | cs => cs

def ofText? (text : String) : Option Toml :=
  (readStatements? (joinLineEnds (dropMark text.toList))).bind ofStatements?

end SheetCut.Toml
