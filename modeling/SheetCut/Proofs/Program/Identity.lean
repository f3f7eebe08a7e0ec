import Mathlib.Data.List.Find
import SheetCut.Proofs.Program.Placements

/-!
# The ids of parts

The id of a part is made of the block number that was in force where the part was placed. So ids are
distinct exactly if no two placements share that number, and only then is every part found by its id:
of the parts placed under one number the first is found.
-/

namespace SheetCut

variable {α : Type}

/-- Two placements have one id exactly if they were declared under one block number. -/
theorem Placement.partId_inj {p q : Placement α} :
    p.partId = q.partId ↔ p.originBlockNumber = q.originBlockNumber := by
  constructor
  · intro h
    have hrepr : p.originBlockNumber.toNat.repr = q.originBlockNumber.toNat.repr :=
      (String.append_right_inj "part-").1 h
    -- The digits read back as the number, so they are written for one number only.
    have hdigits := congrArg (fun s => Nat.ofDigitChars 10 s.toList 0) hrepr
    simp only [Nat.toList_repr, Nat.ofDigitChars_ten_toDigits] at hdigits
    exact UInt32.toNat_inj.1 hdigits
  · intro h
    rw [partId, partId, h]

theorem Command.originBlockNumber_of_placementAt? {block : UInt32} {cs : List (Command α)}
    {i : Nat} {p : Placement α} (h : placementAt? block cs i = some p) :
    p.originBlockNumber = blockInForce block (cs.take i) := by
  obtain ⟨c, -, hc⟩ := Option.bind_eq_some_iff.1 h
  unfold placement? at hc
  split at hc <;> cases hc
  rfl

/-- Where the images of the members are distinct, a member is found by its image. -/
theorem find?_eq_self_of_nodup_map {β γ : Type} [DecidableEq γ] {f : β → γ} {l : List β}
    (h : (l.map f).Nodup) {a : β} (ha : a ∈ l) : (l.find? fun b => f b = f a) = some a := by
  obtain ⟨s, t, rfl⟩ := List.append_of_mem ha
  refine List.find?_eq_some_iff_append.2 ⟨decide_eq_true rfl, s, t, rfl, fun b hb => ?_⟩
  rw [List.map_append, List.map_cons] at h
  have hne : f b ≠ f a :=
    (List.nodup_append.1 h).2.2 _ (List.mem_map_of_mem hb) _ List.mem_cons_self
  simpa using hne

namespace Program

open Command Placement

/-- The ids of all placements: of the parts and of those that were skipped. -/
def placementIds (p : Program α) : List String :=
  p.parts.map Part.id ++ p.skippedParts.map SkippedPart.partId

/-- No two placements of the header are declared under one block number. -/
def PlacedApart (cs : List (Command α)) : Prop :=
  ∀ i j, i < j → (placementAt? 0 (header cs) i).isSome → (placementAt? 0 (header cs) j).isSome →
    blockInForce 0 ((header cs).take i) ≠ blockInForce 0 ((header cs).take j)

theorem nodup_originBlockNumbers_iff {cs : List (Command α)} :
    ((placementsIn cs).map Placement.originBlockNumber).Nodup ↔ PlacedApart cs := by
  rw [placementsIn, placementsFrom_eq_filterMap, List.nodup_iff_pairwise_ne, List.pairwise_map,
    List.pairwise_filterMap, List.pairwise_iff_getElem]
  simp only [List.length_range, List.getElem_range]
  constructor
  · intro h i j hij hi hj
    obtain ⟨p, hp⟩ := Option.isSome_iff_exists.1 hi
    obtain ⟨q, hq⟩ := Option.isSome_iff_exists.1 hj
    have hlt : j < (header cs).length := by
      obtain ⟨c, hc, -⟩ := Option.bind_eq_some_iff.1 hq
      exact (List.getElem?_eq_some_iff.1 hc).1
    rw [← originBlockNumber_of_placementAt? hp, ← originBlockNumber_of_placementAt? hq]
    exact h i j (hij.trans hlt) hlt hij p hp q hq
  · intro h i j _ _ hij p hp q hq
    rw [originBlockNumber_of_placementAt? hp, originBlockNumber_of_placementAt? hq]
    exact h i j hij (Option.isSome_of_eq_some hp) (Option.isSome_of_eq_some hq)

variable [Scalar α]

section

variable {cs : List (Command α)} {keep : Bool} {p : Program α} (h : ofCommands? cs keep = .ok p)
include h

/-- Parts and skipped placements together have the ids of the placements. -/
theorem perm_placementIds : p.placementIds.Perm ((placementsIn cs).map Placement.partId) := by
  obtain ⟨-, hparts, hskipped⟩ := lists_of_ofCommands? h
  rw [placementIds, hparts, hskipped, List.map_map, List.map_map]
  have hperm := (List.filter_append_perm (isMarkedIn cs) (placementsIn cs)).map Placement.partId
  rw [List.map_append] at hperm
  exact hperm

theorem nodup_placementIds_iff : p.placementIds.Nodup ↔ PlacedApart cs := by
  rw [(perm_placementIds h).nodup_iff, ← nodup_originBlockNumbers_iff, List.nodup_iff_pairwise_ne,
    List.nodup_iff_pairwise_ne, List.pairwise_map, List.pairwise_map]
  simp only [ne_eq, partId_inj]

theorem part?_id {a : Part α} (ha : a ∈ p.parts) :
    p.part? a.id = p.parts.find? fun b => b.originBlockNumber = a.originBlockNumber := by
  obtain ⟨-, hparts, -⟩ := lists_of_ofCommands? h
  rw [part?, hparts]
  rw [hparts] at ha
  obtain ⟨q, -, rfl⟩ := List.mem_map.1 ha
  refine List.find?_congr fun b hb => ?_
  obtain ⟨r, -, rfl⟩ := List.mem_map.1 hb
  exact decide_eq_decide.2 partId_inj

end

/-- The ids of all placements are distinct exactly if no two of them are declared under one block
number. By its id a part is found that was placed under the same number, the first of these; it is
the part itself if the ids are distinct. -/
theorem part_ids_distinct_iff {text : String} {keep : Bool} {p : Program α}
    (h : ofText? text keep = .ok p) :
    (p.placementIds.Nodup ↔ PlacedApart (Command.ofText text : List (Command α))) ∧
      (∀ a ∈ p.parts,
        p.part? a.id = p.parts.find? fun b => b.originBlockNumber = a.originBlockNumber) ∧
      (p.placementIds.Nodup → ∀ a ∈ p.parts, p.part? a.id = some a) := by
  refine ⟨nodup_placementIds_iff h, fun a ha => part?_id h ha, fun hn a ha => ?_⟩
  exact find?_eq_self_of_nodup_map (List.nodup_append.1 hn).1 ha

/-- A part is placed twice, each time after a block marker of its own. -/
def twoMarkers : String :=
  "HKLDB(1,DB,1)\nHKINI(2,100,50)\nN10 HKOST(0,0,0,1000,1)\nN20 HKOST(100,0,180,1000,1)\n" ++
  "N30 HKEND\nN1000\nHKSTR(1,1,0,0,0,1,1)\nHKCUT\nG1 X1 Y0\nHKSTO(0,1,0,0,0,0)\nHKPED"

theorem part_ids_distinct_iff_twoMarkers :
    ∃ p : Program Float, ofText? twoMarkers false = .ok p ∧
      PlacedApart (Command.ofText twoMarkers : List (Command Float)) ∧
      p.placementIds = ["part-10", "part-20"] ∧ ∀ a ∈ p.parts, p.part? a.id = some a := by
  have hrun : (ofText? (α := Float) twoMarkers false).toOption.map placementIds =
      some ["part-10", "part-20"] := by decide +kernel
  obtain ⟨p, hp, hids⟩ := exists_eq_ok_of_toOption_map hrun
  obtain ⟨hiff, -, hpart⟩ := part_ids_distinct_iff hp
  have hn : p.placementIds.Nodup := by
    rw [hids]
    decide
  exact ⟨p, hp, hiff.1 hn, hids, hpart hn⟩

def oneMarker : String :=
  "HKLDB(1,DB,1)\nHKINI(2,100,50)\nN10 HKOST(0,0,0,1000,1)\nHKOST(100,0,180,1000,1)\n" ++
  "N20 HKEND\nN1000\nHKSTR(1,1,0,0,0,1,1)\nHKCUT\nG1 X1 Y0\nHKSTO(0,1,0,0,0,0)\nHKPED"

/-- Whether a part lies at the left edge of the sheet, and whether the part found by its id does. -/
def atLeftEdge (p : Program Float) (a : Part Float) : Bool × Option Bool :=
  (a.origin.x == 0, (p.part? a.id).map fun b => b.origin.x == 0)

/-- Both parts get the id of the marker, and the second one is not found by it. -/
theorem one_marker_ids_equal :
    ∃ p : Program Float, ofText? oneMarker false = .ok p ∧
      p.placementIds = ["part-10", "part-10"] ∧ ¬p.placementIds.Nodup ∧
      ∃ a ∈ p.parts, p.part? a.id ≠ some a := by
  have hrun : (ofText? (α := Float) oneMarker false).toOption.map (fun p =>
      (p.placementIds, p.parts.map p.atLeftEdge)) =
        some (["part-10", "part-10"], [(true, some true), (false, some true)]) := by
    decide +kernel
  obtain ⟨p, hp, hrun⟩ := exists_eq_ok_of_toOption_map hrun
  obtain ⟨hids, hedge⟩ := Prod.mk.inj hrun
  have hmem : (false, some true) ∈ p.parts.map p.atLeftEdge := by
    rw [hedge]
    decide
  obtain ⟨a, ha, hx⟩ := List.mem_map.1 hmem
  refine ⟨p, hp, hids, by rw [hids]; decide, a, ha, fun hself => ?_⟩
  simp [atLeftEdge, hself] at hx

end Program

end SheetCut
