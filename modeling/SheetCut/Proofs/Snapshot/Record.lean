import Mathlib.Data.List.Basic
import SheetCut.Json.Value

/-!
# Records and tags

The fields that are written into an object are found in it again under their names, and a name of a
kind that stands in front of them does not get in their way.
-/

namespace SheetCut.Json

/-- The members of an object that holds the values under the names. A field without a value has no
member. -/
def present : List String → List (Option Json) → List (String × Json)
  | name :: names, some j :: values => (name, j) :: present names values
  | _ :: names, none :: values => present names values
  | [], _ => []
  | _ :: _, [] => []

theorem ne_of_mem_present {names : List String} {values : List (Option Json)} {name : String}
    (hname : name ∉ names) : ∀ m ∈ present names values, m.1 ≠ name := by
  induction names, values using present.induct with
  | case1 other names j values ih =>
    rw [List.mem_cons, not_or] at hname
    rw [present]
    exact List.forall_mem_cons.2 ⟨Ne.symm hname.1, ih hname.2⟩
  | case2 other names values ih =>
    rw [present]
    exact ih fun h => hname (List.mem_cons_of_mem _ h)
  | case3 | case4 =>
    rw [present]
    exact fun m hm => absurd hm List.not_mem_nil

theorem member?_cons_of_eq {members : List (String × Json)} {name : String}
    (h : ∀ m ∈ members, m.1 ≠ name) (j : Json) :
    member? ((name, j) :: members) name = some (some j) := by
  have hnone : members.filter (fun m => m.1 = name) = [] :=
    List.filter_eq_nil_iff.2 fun m hm => by simpa using h m hm
  rw [member?, List.filter_cons_of_pos (by simp), hnone]

theorem member?_cons_of_ne {m : String × Json} {name : String} (h : m.1 ≠ name)
    (members : List (String × Json)) : member? (m :: members) name = member? members name := by
  rw [member?, List.filter_cons_of_neg (by simpa using h), ← member?]

theorem member?_of_forall_ne {members : List (String × Json)} {name : String}
    (h : ∀ m ∈ members, m.1 ≠ name) : member? members name = some none := by
  have hnone : members.filter (fun m => m.1 = name) = [] :=
    List.filter_eq_nil_iff.2 fun m hm => by simpa using h m hm
  rw [member?, hnone]

theorem mapM_member?_cons {m : String × Json} {names : List String} (h : m.1 ∉ names)
    (members : List (String × Json)) :
    names.mapM (member? (m :: members)) = names.mapM (member? members) := by
  induction names with
  | nil => rfl
  | cons name names ih =>
    rw [List.mem_cons, not_or] at h
    rw [List.mapM_cons, List.mapM_cons, member?_cons_of_ne h.1, ih h.2]

theorem mapM_member?_present {names : List String} (hnodup : names.Nodup)
    {values : List (Option Json)} (hlength : names.length = values.length) :
    names.mapM (member? (present names values)) = some values := by
  induction names, values using present.induct with
  | case1 name names j values ih =>
    obtain ⟨hname, hnodup⟩ := List.nodup_cons.1 hnodup
    rw [present, List.mapM_cons, member?_cons_of_eq (ne_of_mem_present hname),
      mapM_member?_cons hname, ih hnodup (Nat.succ.inj hlength)]
    rfl
  | case2 name names values ih =>
    obtain ⟨hname, hnodup⟩ := List.nodup_cons.1 hnodup
    rw [present, List.mapM_cons, member?_of_forall_ne (ne_of_mem_present hname),
      ih hnodup (Nat.succ.inj hlength)]
    rfl
  | case3 values =>
    rw [List.length_eq_zero_iff.1 hlength.symm]
    rfl
  | case4 => cases hlength

theorem present_map (fields : List (String × Json)) :
    present (fields.map Prod.fst) (fields.map fun m => some m.2) = fields := by
  induction fields with
  | nil => rfl
  | cons m fields ih => rw [List.map_cons, List.map_cons, present, ih]

/-- The fields of a record are found under their names, whether they have a value or not. -/
theorem fields?_present {names : List String} (hnodup : names.Nodup) (least : Nat)
    (values : List (Option Json)) (hlength : names.length = values.length) :
    (object (present names values)).fields? names least = some values :=
  mapM_member?_present hnodup hlength

/-- Where all fields have a value they are the members. -/
theorem fields?_object {fields : List (String × Json)} (hnodup : (fields.map Prod.fst).Nodup)
    (least : Nat) :
    (object fields).fields? (fields.map Prod.fst) least = some (fields.map fun m => some m.2) := by
  have h := fields?_present hnodup least (fields.map fun m => some m.2) (by simp)
  rwa [present_map] at h

/-- The name of a kind does not get in the way of the fields behind it. -/
theorem tagged?_object {tag : String} {fields : List (String × Json)}
    (htag : tag ∉ fields.map Prod.fst) (hreadable : haveReadable fields = true)
    (kinds : List String) (held : Bool) (kind : String) :
    tagged? tag kinds held (object ((tag, string kind) :: fields)) =
      some (kind, object fields) := by
  have hfree : ∀ m ∈ fields, m.1 ≠ tag := fun m hm hm' => htag (hm' ▸ List.mem_map_of_mem hm)
  have hrest : ((tag, string kind) :: fields).filter (fun m => m.1 ≠ tag) = fields := by
    rw [List.filter_cons_of_neg (by simp), List.filter_eq_self.2]
    simpa using hfree
  have hall : (object ((tag, string kind) :: fields)).isReadable = true := by
    simp [isReadable, haveReadable, hreadable]
  rw [tagged?, if_pos hall]
  simp only [member?_cons_of_eq hfree, hrest]
  rfl

/-- A content that stands behind its kind is not held back. -/
theorem tagAndContent?_object {tag content : String} (h : tag ≠ content) (kind : String)
    (c : Json) :
    tagAndContent? tag content (object [(tag, string kind), (content, c)]) =
      some (kind, c, false) := by
  have htag : member? [(tag, string kind), (content, c)] tag = some (some (string kind)) :=
    member?_cons_of_eq (by simpa using h.symm) _
  have hcontent : member? [(tag, string kind), (content, c)] content = some (some c) := by
    rw [member?_cons_of_ne h, member?_cons_of_eq (by simp)]
  have hbefore : isBefore content tag [(tag, string kind), (content, c)] = false := by
    simp [isBefore, List.findIdx_cons]
  simp only [tagAndContent?, htag, hcontent, hbefore]
  rfl

end SheetCut.Json
