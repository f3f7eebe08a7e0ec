import SheetCut.Text.Digit

/-!
# Quoted strings

Writing and reading TOML strings. There are four forms: with escapes or without, and on one line or
on several. A string is written in the first form that shows its content as it is.
-/

namespace SheetCut.Toml

def quote : Char := '"'

def apostrophe : Char := '\x27'

def backslash : Char := '\\'

/-- A control character other than the tab. It stands nowhere as it is, apart from line ends. -/
def isControl (c : Char) : Bool := (c.toNat < 0x20 && c != '\t') || c.toNat == 0x7F

/-- The length of the longest row of `q`; `row` of them stand right in front. -/
def longestRow (q : Char) (row : Nat) : List Char → Nat
  | [] => row
  | c :: cs => if c = q then longestRow q (row + 1) cs else max row (longestRow q 0 cs)

def hexDigit (n : Nat) : Char := if n < 10 then Char.ofNat (48 + n) else Char.ofNat (55 + n)

def escape (c : Char) : List Char :=
  backslash ::
    match c with
    | '\t' => ['t']
    | '\n' => ['n']
    | '\r' => ['r']
    | c =>
      if c = quote ∨ c = backslash then [c]
      else if c.toNat = 8 then ['b']
      else if c.toNat = 12 then ['f']
      else ['u', '0', '0', hexDigit (c.toNat / 16), hexDigit (c.toNat % 16)]

/-- The content between quotes. A row of up to `free` quotes stands as it is, and so do line ends
if `lines` is set; `row` quotes stand right in front. -/
def escaped (lines : Bool) (free : Nat) (row : Nat) : List Char → List Char
  | [] => []
  | c :: cs =>
    if c = quote then
      if row < free then c :: escaped lines free (row + 1) cs
      else escape c ++ escaped lines free 0 cs
    else if c = '\n' ∧ lines then c :: escaped lines free 0 cs
    else if isControl c ∨ c = '\t' ∨ c = backslash then escape c ++ escaped lines free 0 cs
    else c :: escaped lines free 0 cs

inductive Form where
  | basic
  | literal
  | multiBasic
  | multiLiteral

/-- Whether the form shows a content as it is, on one line only if it is a form for one line. -/
def Form.shows (cs : List Char) : Form → Bool
  | basic => !cs.any fun c => isControl c || c == backslash || c == quote
  | literal => !cs.any fun c => isControl c || c == apostrophe
  | multiBasic =>
    (!cs.any fun c => (isControl c && c != '\n') || c == backslash) && longestRow quote 0 cs ≤ 2
  | multiLiteral =>
    (!cs.any fun c => isControl c && c != '\n') && longestRow apostrophe 0 cs ≤ 2

/-- The form in which a content is written. -/
def Form.of (cs : List Char) : Form :=
  match [basic, literal, multiBasic, multiLiteral].find? (shows cs) with
  | some form => form
  | none => if cs.contains '\n' then multiBasic else basic

/-- A content in a given form. A content of several lines begins on a line of its own. -/
def Form.write (cs : List Char) : Form → List Char
  | basic => quote :: escaped false 0 0 cs ++ [quote]
  | literal => apostrophe :: cs ++ [apostrophe]
  | multiBasic => List.replicate 3 quote ++ lead ++ escaped true 2 0 cs ++ List.replicate 3 quote
  | multiLiteral => List.replicate 3 apostrophe ++ lead ++ cs ++ List.replicate 3 apostrophe
where
  lead : List Char := if cs.contains '\n' then ['\n'] else []

def quoted (s : String) : String := String.ofList ((Form.of s.toList).write s.toList)

def isSpace (c : Char) : Bool := c == ' ' || c == '\t'

/-- The character with a code, unless the code is a surrogate or too large. -/
def character? (n : Nat) : Option Char := if n.isValidChar then some (Char.ofNat n) else none

def simpleEscape? : Char → Option Char
  | '"' => some '"'
  | '\\' => some '\\'
  | 'b' => some (Char.ofNat 8)
  | 'f' => some (Char.ofNat 12)
  | 'n' => some '\n'
  | 'r' => some '\r'
  | 't' => some '\t'
  | _ => none

def escapeSize (c : Char) : Nat := if c = 'u' then 4 else if c = 'U' then 8 else 0

/-- The character that an escape names, without its backslash, and the text after it. -/
def readEscape? : List Char → Option (Char × List Char)
  | [] => none
  | c :: cs =>
    let size := escapeSize c
    if size = 0 then (simpleEscape? c).map (·, cs)
    else if cs.length < size then none
    else ((Text.hexNumber? (cs.take size)).bind character?).map (·, cs.drop size)

theorem length_of_readEscape? {cs rest : List Char} {c : Char}
    (h : readEscape? cs = some (c, rest)) : rest.length < cs.length := by
  cases cs with
  | nil => simp [readEscape?] at h
  | cons d cs =>
    simp only [readEscape?] at h
    split at h
    · obtain ⟨_, _, h⟩ := Option.map_eq_some_iff.mp h
      cases h
      simp
    · split at h
      · simp at h
      · obtain ⟨_, _, h⟩ := Option.map_eq_some_iff.mp h
        cases h
        simp only [List.length_drop, List.length_cons]
        omega

/-- The content up to the closing quote, and the text after that. -/
def readBasic? : List Char → Option (List Char × List Char)
  | [] => none
  | c :: cs =>
    if c = quote then some ([], cs)
    else if c = backslash then
      match _h : readEscape? cs with
      | some (d, rest) => (readBasic? rest).map fun r => (d :: r.1, r.2)
      | none => none
    else if isControl c then none
    else (readBasic? cs).map fun r => (c :: r.1, r.2)
termination_by cs => cs.length
decreasing_by
  · have := length_of_readEscape? _h
    simp only [List.length_cons]
    omega
  · simp

def readLiteral? : List Char → Option (List Char × List Char)
  | [] => none
  | c :: cs =>
    if c = apostrophe then some ([], cs)
    else if isControl c then none
    else (readLiteral? cs).map fun r => (c :: r.1, r.2)

/-- The end of a string on several lines: three of the quotes `q`. Up to two more in front of them
are content. -/
def closing? (q : Char) (cs : List Char) : Option (List Char × List Char) :=
  let n := min 5 (cs.takeWhile (· = q)).length
  if 3 ≤ n then some (List.replicate (n - 3) q, cs.drop n) else none

/-- The content up to the closing quotes, and the text after them. A backslash at the end of a line
joins it to what follows, without the blanks and line ends in between. -/
def readMultiBasic? (cs : List Char) : Option (List Char × List Char) :=
  match closing? quote cs with
  | some r => some r
  | none =>
    match cs with
    | [] => none
    | c :: cs =>
      if c = backslash then
        if (cs.dropWhile isSpace).head? = some '\n' then
          readMultiBasic? (cs.dropWhile fun d => isSpace d || d == '\n')
        else
          match _h : readEscape? cs with
          | some (d, rest) => (readMultiBasic? rest).map fun r => (d :: r.1, r.2)
          | none => none
      else if isControl c ∧ c ≠ '\n' then none
      else (readMultiBasic? cs).map fun r => (c :: r.1, r.2)
termination_by cs.length
decreasing_by
  · have := (List.dropWhile_sublist (fun d => isSpace d || d == '\n') (l := cs)).length_le
    simp only [List.length_cons]
    omega
  · have := length_of_readEscape? _h
    simp only [List.length_cons]
    omega
  · simp

def readMultiLiteral? : List Char → Option (List Char × List Char)
  | [] => none
  | c :: cs =>
    match closing? apostrophe (c :: cs) with
    | some r => some r
    | none =>
      if isControl c ∧ c ≠ '\n' then none
      else (readMultiLiteral? cs).map fun r => (c :: r.1, r.2)

/-- A line end right after the opening quotes is no content. -/
def dropLineEnd : List Char → List Char
  | '\n' :: cs => cs
  | cs => cs

def readPlain? : List Char → Option (List Char × List Char)
  | [] => none
  | c :: cs =>
    if c = quote then readBasic? cs else if c = apostrophe then readLiteral? cs else none

def readString? (cs : List Char) : Option (List Char × List Char) :=
  if cs.take 3 = List.replicate 3 quote then readMultiBasic? (dropLineEnd (cs.drop 3))
  else if cs.take 3 = List.replicate 3 apostrophe then
    readMultiLiteral? (dropLineEnd (cs.drop 3))
  else readPlain? cs

end SheetCut.Toml
