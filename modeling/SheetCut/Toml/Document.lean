import SheetCut.Toml.Value

/-!
# TOML documents

A document is a list of statements: headers, which open a table, and pairs, which go into the table
that is open. Each statement is a change of the document's entries, and fails where it would define
something twice.
-/

namespace SheetCut.Toml

inductive Statement where
  /-- `[a.b]` -/
  | header (path : List String)
  /-- `[[a.b]]` -/
  | element (path : List String)
  /-- `a.b = value` -/
  | pair (key : List String) (value : Toml)

namespace Entries

/-- The entries with the value at `key` replaced, or with a new last entry. -/
def put (key : String) (value : Toml) : Entries → Entries
  | [] => [(key, value)]
  | e :: es => if e.1 = key then (key, value) :: es else e :: put key value es

def alterLast {T : Type} (f : T → Option T) : List T → Option (List T)
  | [] => none
  | [x] => (f x).map fun x => [x]
  | x :: xs => (alterLast f xs).map (x :: ·)

/-- Changes the table under a path. Missing tables on the way are implied, and an array of tables
stands for its last element. -/
def alter (f : Entries → Option Entries) : List String → Entries → Option Entries
  | [], es => f es
  | k :: path, es =>
    match es.lookup k with
    | none => (alter f path []).map fun inner => put k (table .implied inner) es
    | some (table .inline _) => none
    | some (table origin inner) =>
      (alter f path inner).map fun inner => put k (table origin inner) es
    | some (tables items) =>
      (alterLast (alter f path) items).map fun items => put k (tables items) es
    | some _ => none

/-- Opens the table `key`, which must be new or only implied so far. -/
def openTable (key : String) (es : Entries) : Option Entries :=
  match es.lookup key with
  | none => some (put key (table .header []) es)
  | some (table .implied inner) => some (put key (table .header inner) es)
  | some _ => none

def openElement (key : String) (es : Entries) : Option Entries :=
  match es.lookup key with
  | none => some (put key (tables [[]]) es)
  | some (tables items) => some (put key (tables (items ++ [[]])) es)
  | some _ => none

/-- Defines the value of a key that is new. The tables that the parts of the key lead through must
not have headers; the last of them must come from a key with points itself. -/
def define (value : Toml) : List String → Entries → Option Entries
  | [], _ => none
  | [k], es => if (es.lookup k).isSome then none else some (put k value es)
  | k :: path, es =>
    match es.lookup k with
    | none => (define value path []).map fun inner => put k (table .dotted inner) es
    | some (table .dotted inner) =>
      (define value path inner).map fun inner => put k (table .dotted inner) es
    | some (table .implied inner) =>
      if path.length = 1 then none
      else (define value path inner).map fun inner => put k (table .implied inner) es
    | some (tables items) =>
      if path.length = 1 then none
      else (alterLast (define value path) items).map fun items => put k (tables items) es
    | some _ => none

end Entries

/-- A document under construction: its entries, and the path of the table that is open. -/
structure Draft where
  path : List String
  entries : Entries

open Entries in
def Draft.add? (d : Draft) : Statement → Option Draft
  | .header path => do
    let key ← path.getLast?
    return ⟨path, ← alter (openTable key) path.dropLast d.entries⟩
  | .element path => do
    let key ← path.getLast?
    return ⟨path, ← alter (openElement key) path.dropLast d.entries⟩
  | .pair key value => return ⟨d.path, ← alter (define value key) d.path d.entries⟩

def ofStatements? (statements : List Statement) : Option Toml :=
  (statements.foldlM Draft.add? ⟨[], []⟩).map fun d => table .header d.entries

end SheetCut.Toml
