/-!
# JSON values

A JSON document as a tree. Whole numbers and numbers with a point or an exponent are different
values, and an object keeps its members in order, with repeated names as they come.

A number may be too large for a float, and a string may hold half a surrogate pair. Such a part of
a document has no value, which matters only where the part is looked at.
-/

namespace SheetCut

inductive Json where
  | null
  | bool (b : Bool)
  | integer (n : Int)
  | number (x : Float)
  | string (s : String)
  | array (items : List Json)
  | object (members : List (String × Json))
  /-- What is written in the right form but has no value. -/
  | unreadable

namespace Json

mutual

def isReadable : Json → Bool
  | unreadable => false
  | array items => areReadable items
  | object members => haveReadable members
  | _ => true

def areReadable : List Json → Bool
  | [] => true
  | item :: items => item.isReadable && areReadable items

def haveReadable : List (String × Json) → Bool
  | [] => true
  | m :: ms => m.2.isReadable && haveReadable ms

end

/-- A float as JSON can hold it: what is not finite becomes null. -/
def ofFloat (x : Float) : Json := if x.isFinite then number x else null

def ofNat (n : Nat) : Json := integer n

def ofUInt32 (n : UInt32) : Json := integer n.toNat

def ofInt32 (n : Int32) : Json := integer n.toInt

/-- Both kinds of numbers are read as floats, whole ones rounded to the nearest. -/
def float? : Json → Option Float
  | number x => some x
  | integer n => some (Float.ofInt n)
  | _ => none

def bool? : Json → Option Bool
  | bool b => some b
  | _ => none

def string? : Json → Option String
  | string s => some s
  | _ => none

def uint32? : Json → Option UInt32
  | integer n => if 0 ≤ n ∧ n < UInt32.size then some (UInt32.ofNat n.toNat) else none
  | _ => none

def int32? : Json → Option Int32
  | integer n => if Int32.minValue.toInt ≤ n ∧ n ≤ Int32.maxValue.toInt then some (Int32.ofInt n) else none
  | _ => none

/-- A count below `2 ^ 64`. -/
def count? : Json → Option Nat
  | integer n => if 0 ≤ n ∧ n < UInt64.size then some n.toNat else none
  | _ => none

def list? {T : Type} (item? : Json → Option T) : Json → Option (List T)
  | array items => items.mapM item?
  | _ => none

/-- An optional member: missing and null are the same. -/
def optional? {T : Type} (value? : Json → Option T) : Option Json → Option (Option T)
  | none => some none
  | some null => some none
  | some j => (value? j).map some

/-- The value of a member, unless the name occurs twice. -/
def member? (members : List (String × Json)) (name : String) : Option (Option Json) :=
  match members.filter fun m => m.1 = name with
  | [] => some none
  | [m] => some (some m.2)
  | _ => none

/-- The values of a record's fields in the order of `names`. An object gives them by name, and
members with other names are ignored; an array gives them by position, and may leave off the last
ones as long as there are `least`. -/
def fields? (names : List String) (least : Nat) : Json → Option (List (Option Json))
  | object members => names.mapM (member? members)
  | array items =>
    if least ≤ items.length ∧ items.length ≤ names.length then
      some (items.map some ++ List.replicate (names.length - items.length) none)
    else none
  | _ => none

/-- A name without content: a string, or an object whose only member has that name and is null. -/
def bareName? : Json → Option String
  | string s => some s
  | object [(name, null)] => some name
  | _ => none

/-- The name of one of `kinds`. A value that was `held` back until the kind of its owner was known
may also give the position of the name. -/
def kindName? (kinds : List String) (held : Bool) : Json → Option String
  | string s => some s
  | integer n => if held ∧ 0 ≤ n then kinds[n.toNat]? else none
  | _ => none

/-- A value that carries the name of its kind in the member `tag`, or as its first item, and the
rest of it. The kind is looked for in the whole value, so all of it has to be readable. -/
def tagged? (tag : String) (kinds : List String) (held : Bool) (j : Json) :
    Option (String × Json) :=
  if j.isReadable then
    match j with
    | object members =>
      match member? members tag with
      | some (some kind) =>
        (kindName? kinds held kind).map fun name => (name, object (members.filter fun m => m.1 ≠ tag))
      | _ => none
    | array (kind :: items) => (kindName? kinds held kind).map fun name => (name, array items)
    | _ => none
  else none

def isBefore (first second : String) (members : List (String × Json)) : Bool :=
  members.findIdx (fun m => m.1 = first) < members.findIdx (fun m => m.1 = second)

/-- A value that carries the name of its kind and its content side by side, and whether the content
was held back because it comes first. All of a content that is held back has to be readable. In an
array, where the two stand in this order, only a string names the kind. -/
def tagAndContent? (tag content : String) : Json → Option (String × Json × Bool)
  | object members =>
    match member? members tag, member? members content with
    | some (some t), some (some c) =>
      let held := isBefore content tag members
      if held && !c.isReadable then none
      else (bareName? t).map fun name => (name, c, held)
    | _, _ => none
  | array [t, c] => (string? t).map fun name => (name, c, false)
  | _ => none

/-- A kind without fields: an object may hold anything, an array nothing. -/
def isBare : Json → Bool
  | object _ => true
  | array items => items.isEmpty
  | _ => false

end Json

end SheetCut
