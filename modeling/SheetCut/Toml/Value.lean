/-!
# TOML values

A TOML document as a tree. A table remembers how it came about, because that decides what later
lines may still add to it.
-/

namespace SheetCut

/-- How a table came about. -/
inductive TableOrigin where
  /-- It has a header of its own. -/
  | header
  /-- It stands on the way to another table's header. -/
  | implied
  /-- A key with points in it leads through it. -/
  | dotted
  /-- It is written in braces. -/
  | inline
  deriving DecidableEq

inductive Toml where
  | string (s : String)
  | integer (n : Int)
  | float (x : Float)
  | bool (b : Bool)
  /-- A date, a time of day or both. Which one it is does not matter here. -/
  | moment
  | array (items : List Toml)
  | table (origin : TableOrigin) (entries : List (String × Toml))
  /-- Tables under one double-bracket header each. -/
  | tables (items : List (List (String × Toml)))

namespace Toml

abbrev Entries := List (String × Toml)

def float? : Toml → Option Float
  | float x => some x
  | integer n => some (Float.ofInt n)
  | _ => none

def bool? : Toml → Option Bool
  | bool b => some b
  | _ => none

def string? : Toml → Option String
  | string s => some s
  | _ => none

/-- The values of a record's fields in the order of `names`. A table gives them by name, and an
array by position. What else they hold is ignored. A date or time counts as a record that has none
of the fields. -/
def fields? (names : List String) : Toml → Option (List (Option Toml))
  | table _ entries => some (names.map fun name => entries.lookup name)
  | array items => some ((List.range names.length).map fun n => items[n]?)
  | tables items =>
    some ((List.range names.length).map fun n => items[n]?.map (table .header))
  | moment => some (names.map fun _ => none)
  | _ => none

end Toml

end SheetCut
