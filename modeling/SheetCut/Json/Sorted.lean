import SheetCut.Json.Value

/-!
# Sorted JSON

The members of all objects in the order of their names.
-/

namespace SheetCut.Json

mutual

/-- The same value with the members of all objects sorted by name. -/
def sorted : Json → Json
  | array items => array (sortedItems items)
  | object members => object ((sortedMembers members).mergeSort fun m n => decide (m.1 ≤ n.1))
  | j => j

def sortedItems : List Json → List Json
  | [] => []
  | item :: items => item.sorted :: sortedItems items

def sortedMembers : List (String × Json) → List (String × Json)
  | [] => []
  | m :: ms => (m.1, m.2.sorted) :: sortedMembers ms

end

end SheetCut.Json
