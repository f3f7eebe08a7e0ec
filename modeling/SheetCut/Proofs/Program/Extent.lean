import SheetCut.Proofs.Geometry.Box
import SheetCut.Program.Statistics

/-!
# The extent of the sheet

A placement turns a part and moves it, so it carries the box of the part to a figure whose corners
bound the whole of it, whichever way it is turned. The box of the sheet is the least one around
these figures.
-/

namespace SheetCut

/-- The corners of the boxes of all parts, carried to the sheet. -/
def Program.sheetCorners {α : Type} [Scalar α] (p : Program α) : List (Point α) :=
  p.parts.flatMap fun part =>
    match part.bounds? with
    | some b => worldCorners part b
    | none => []

/-- On one of the two ends of a range the product is no larger than in between. -/
theorem exists_end_mul_le {a x x₀ x₁ : ℝ} (h₀ : x₀ ≤ x) (h₁ : x ≤ x₁) :
    ∃ u, (u = x₀ ∨ u = x₁) ∧ a * u ≤ a * x := by
  rcases le_total 0 a with ha | ha
  · exact ⟨x₀, .inl rfl, mul_le_mul_of_nonneg_left h₀ ha⟩
  · exact ⟨x₁, .inr rfl, mul_le_mul_of_nonpos_left h₁ ha⟩

/-- In one of the four corners of a box a linear function is no larger than inside. -/
theorem exists_corner_le (a b : ℝ) {x x₀ x₁ y y₀ y₁ : ℝ} (hx₀ : x₀ ≤ x) (hx₁ : x ≤ x₁)
    (hy₀ : y₀ ≤ y) (hy₁ : y ≤ y₁) :
    ∃ u v, (u = x₀ ∨ u = x₁) ∧ (v = y₀ ∨ v = y₁) ∧ a * u + b * v ≤ a * x + b * y := by
  obtain ⟨u, hu, hau⟩ := exists_end_mul_le (a := a) hx₀ hx₁
  obtain ⟨v, hv, hbv⟩ := exists_end_mul_le (a := b) hy₀ hy₁
  exact ⟨u, v, hu, hv, add_le_add hau hbv⟩

section

variable [Trigonometry]

/-- The named points and the origins of all parts are finite. -/
structure Program.HasFinitePoints (p : Program EReal) : Prop where
  origin : ∀ part ∈ p.parts, part.origin.isFinite = true
  vertices : ∀ part ∈ p.parts, ∀ c ∈ part.contours, ∀ q ∈ c.vertices, q.isFinite = true

namespace Part

variable {part : Part EReal} {box B : Bounds EReal} {q : Point EReal}

theorem isValid_of_bounds? (h : part.bounds? = some box) : box.isValid = true := by
  obtain ⟨hvalid, rfl⟩ := Bounds.valid?_eq_some_iff.1 h
  exact hvalid

/-- A part with a vertex has a box, and the vertex is inside. -/
theorem exists_bounds?_contains {c : Contour EReal} (hc : c ∈ part.contours) (hq : q ∈ c.vertices)
    (hfinite : q.isFinite = true) : ∃ box, part.bounds? = some box ∧ box.Contains q := by
  have hcontains := Bounds.contains_foldl_merge_of_mem hc c.isBounded_bounds
    (Contour.contains_bounds hq hfinite) Bounds.empty
  have hvalid := Bounds.isValid_of_contains
    (Bounds.isBounded_foldl_merge Bounds.isBounded_empty part.contours) hcontains
  exact ⟨_, Bounds.valid?_eq_some_iff.2 ⟨hvalid, rfl⟩, hcontains⟩

/-- A placement is a linear map and a shift. No turn has the sine 0 and the cosine 1. -/
theorem exists_toWorld_eq (horigin : part.origin.isFinite = true) :
    ∃ s c ox oy : ℝ, ∀ x y : ℝ,
      part.toWorld ⟨x, y⟩ = ⟨(c * x + -s * y + ox : ℝ), (s * x + c * y + oy : ℝ)⟩ := by
  obtain ⟨ox, oy, horigin⟩ := Point.isFinite_iff.1 horigin
  by_cases hr : part.rotation == 0
  · refine ⟨0, 1, ox, oy, fun x y => ?_⟩
    rw [toWorld, Point.rotated, if_pos hr, horigin, Point.offset, neg_zero, one_mul, one_mul,
      zero_mul, zero_mul, add_zero, zero_add, EReal.coe_add, EReal.coe_add]
  · refine ⟨Trigonometry.sin (Scalar.ofDegrees part.rotation).toReal,
      Trigonometry.cos (Scalar.ofDegrees part.rotation).toReal, ox, oy, fun x y => ?_⟩
    rw [toWorld, Point.rotated, if_neg hr, horigin, Point.offset, neg_mul, ← sub_eq_add_neg,
      mul_comm _ x, mul_comm _ y, mul_comm _ x, mul_comm _ y]
    simp only [EReal.coe_add, EReal.coe_sub, EReal.coe_mul]
    rfl

theorem isFinite_toWorld (horigin : part.origin.isFinite = true) (hq : q.isFinite = true) :
    (part.toWorld q).isFinite = true := by
  obtain ⟨s, c, ox, oy, hworld⟩ := exists_toWorld_eq horigin
  obtain ⟨x, y, rfl⟩ := Point.isFinite_iff.1 hq
  exact Point.isFinite_iff.2 ⟨_, _, hworld x y⟩

/-- A box with the images of the four corners inside has the whole image inside: each of its sides
lies beyond one of the corners, which one depends on the signs of sine and cosine. -/
theorem contains_toWorld_of_corners (horigin : part.origin.isFinite = true)
    (hvalid : box.isValid = true)
    (hcorners : ∀ u v, (u = box.min.x ∨ u = box.max.x) → (v = box.min.y ∨ v = box.max.y) →
      B.Contains (part.toWorld ⟨u, v⟩))
    (hq : box.Contains q) : B.Contains (part.toWorld q) := by
  obtain ⟨hmin, hmax, -⟩ := Bounds.isValid_iff.1 hvalid
  obtain ⟨x₀, y₀, hmin⟩ := Point.isFinite_iff.1 hmin
  obtain ⟨x₁, y₁, hmax⟩ := Point.isFinite_iff.1 hmax
  obtain ⟨x, y, rfl⟩ := Point.isFinite_iff.1 (Bounds.isFinite_of_contains hvalid hq)
  obtain ⟨s, c, ox, oy, hworld⟩ := exists_toWorld_eq horigin
  rw [Bounds.Contains, hmin, hmax] at hq
  rw [hmin, hmax] at hcorners
  have hx₀ : x₀ ≤ x := EReal.coe_le_coe_iff.1 hq.1
  have hx₁ : x ≤ x₁ := EReal.coe_le_coe_iff.1 hq.2.1
  have hy₀ : y₀ ≤ y := EReal.coe_le_coe_iff.1 hq.2.2.1
  have hy₁ : y ≤ y₁ := EReal.coe_le_coe_iff.1 hq.2.2.2
  have himage : ∀ u v : ℝ, (u = x₀ ∨ u = x₁) → (v = y₀ ∨ v = y₁) →
      B.Contains ⟨(c * u + -s * v + ox : ℝ), (s * u + c * v + oy : ℝ)⟩ := by
    intro u v hu hv
    rw [← hworld]
    exact hcorners u v (by simpa using hu) (by simpa using hv)
  rw [hworld]
  refine ⟨?_, ?_, ?_, ?_⟩
  · obtain ⟨u, v, hu, hv, hle⟩ := exists_corner_le c (-s) hx₀ hx₁ hy₀ hy₁
    exact (himage u v hu hv).1.trans (EReal.coe_le_coe_iff.2 (by linarith))
  · obtain ⟨u, v, hu, hv, hle⟩ := exists_corner_le (-c) s hx₀ hx₁ hy₀ hy₁
    exact le_trans (EReal.coe_le_coe_iff.2 (by linarith)) (himage u v hu hv).2.1
  · obtain ⟨u, v, hu, hv, hle⟩ := exists_corner_le s c hx₀ hx₁ hy₀ hy₁
    exact (himage u v hu hv).2.2.1.trans (EReal.coe_le_coe_iff.2 (by linarith))
  · obtain ⟨u, v, hu, hv, hle⟩ := exists_corner_le (-s) (-c) hx₀ hx₁ hy₀ hy₁
    exact le_trans (EReal.coe_le_coe_iff.2 (by linarith)) (himage u v hu hv).2.2.2

end Part

namespace Program

variable {p : Program EReal} {part : Part EReal} {box B : Bounds EReal} {q : Point EReal}

theorem sheetBounds?_eq (p : Program EReal) :
    p.sheetBounds? = (Bounds.ofPoints p.sheetCorners).valid? := rfl

theorem mem_sheetCorners : q ∈ p.sheetCorners ↔
    ∃ part ∈ p.parts, ∃ box, part.bounds? = some box ∧ q ∈ worldCorners part box := by
  rw [sheetCorners, List.mem_flatMap]
  refine exists_congr fun part => and_congr_right fun _ => ?_
  cases part.bounds? <;> simp

theorem mem_worldCorners : q ∈ worldCorners part box ↔
    ∃ u v, (u = box.min.x ∨ u = box.max.x) ∧ (v = box.min.y ∨ v = box.max.y) ∧
      part.toWorld ⟨u, v⟩ = q := by
  rw [worldCorners, List.mem_map]
  constructor
  · rintro ⟨r, hr, rfl⟩
    simp only [List.mem_cons, List.not_mem_nil, or_false] at hr
    rcases hr with rfl | rfl | rfl | rfl <;> exact ⟨_, _, by simp, by simp, rfl⟩
  · rintro ⟨u, v, hu, hv, rfl⟩
    refine ⟨⟨u, v⟩, ?_, rfl⟩
    rcases hu with rfl | rfl <;> rcases hv with rfl | rfl <;> simp

/-- A corner is a point of the box. -/
theorem contains_of_corner (hvalid : box.isValid = true) {u v : EReal}
    (hu : u = box.min.x ∨ u = box.max.x) (hv : v = box.min.y ∨ v = box.max.y) :
    box.Contains ⟨u, v⟩ := by
  obtain ⟨-, -, hx, hy⟩ := Bounds.isValid_iff.1 hvalid
  rcases hu with rfl | rfl <;> rcases hv with rfl | rfl <;> simp [Bounds.Contains, hx, hy]

/-- The box around the corners contains the image of a part's box. -/
theorem contains_toWorld (horigin : part.origin.isFinite = true) (hpart : part ∈ p.parts)
    (hbox : part.bounds? = some box) (hq : box.Contains q) :
    (Bounds.ofPoints p.sheetCorners).Contains (part.toWorld q) := by
  have hvalid := Part.isValid_of_bounds? hbox
  refine Part.contains_toWorld_of_corners horigin hvalid (fun u v hu hv => ?_) hq
  have hcorner := Bounds.isFinite_of_contains hvalid (contains_of_corner hvalid hu hv)
  refine Bounds.contains_foldl_update_of_mem ?_ (Part.isFinite_toWorld horigin hcorner) _
  exact mem_sheetCorners.2 ⟨part, hpart, box, hbox, mem_worldCorners.2 ⟨u, v, hu, hv, rfl⟩⟩

/-- In exact arithmetic the box of the sheet contains all that the boxes of the parts contain, the
vertices of all contours among it, and it is the least box that does. There is none exactly if no
part has a box. Sine and cosine may be any functions. -/
theorem sheetBounds?_isLeast (h : p.HasFinitePoints) :
    (p.sheetBounds? = none ↔ ∀ part ∈ p.parts, part.bounds? = none) ∧
    (∀ part ∈ p.parts, ∀ box, part.bounds? = some box → ∀ q, box.Contains q →
      ∃ sheet, p.sheetBounds? = some sheet ∧ sheet.Contains (part.toWorld q)) ∧
    (∀ part ∈ p.parts, ∀ c ∈ part.contours, ∀ q ∈ c.vertices,
      ∃ sheet, p.sheetBounds? = some sheet ∧ sheet.Contains (part.toWorld q)) ∧
    ∀ sheet, p.sheetBounds? = some sheet → ∀ B : Bounds EReal,
      (∀ part ∈ p.parts, ∀ box, part.bounds? = some box → ∀ q, box.Contains q →
        B.Contains (part.toWorld q)) → B.Encloses sheet := by
  have hpart : ∀ part ∈ p.parts, ∀ box, part.bounds? = some box → ∀ q, box.Contains q →
      ∃ sheet, p.sheetBounds? = some sheet ∧ sheet.Contains (part.toWorld q) := by
    intro part hpart box hbox q hq
    have hcontains := contains_toWorld (h.origin part hpart) hpart hbox hq
    have hvalid := Bounds.isValid_of_contains (Bounds.isBounded_ofPoints _) hcontains
    exact ⟨_, Bounds.valid?_eq_some_iff.2 ⟨hvalid, rfl⟩, hcontains⟩
  refine ⟨⟨fun hnone part hp => ?_, fun hnone => ?_⟩, hpart, ?_, ?_⟩
  · cases hbox : part.bounds? with
    | none => rfl
    | some box =>
      have hcorner := contains_of_corner (Part.isValid_of_bounds? hbox) (.inl rfl) (.inl rfl)
      obtain ⟨sheet, hsheet, -⟩ := hpart part hp box hbox _ hcorner
      rw [hnone] at hsheet
      cases hsheet
  · have hempty : p.sheetCorners = [] := by
      rw [List.eq_nil_iff_forall_not_mem]
      intro q hq
      obtain ⟨part, hp, box, hbox, -⟩ := mem_sheetCorners.1 hq
      rw [hnone part hp] at hbox
      cases hbox
    rw [sheetBounds?_eq, hempty]
    exact Bounds.valid?_empty
  · intro part hp c hc q hq
    obtain ⟨box, hbox, hcontains⟩ :=
      Part.exists_bounds?_contains hc hq (h.vertices part hp c hc q hq)
    exact hpart part hp box hbox q hcontains
  · intro sheet hsheet B hB
    obtain ⟨-, rfl⟩ := Bounds.valid?_eq_some_iff.1 hsheet
    refine Bounds.encloses_ofPoints fun q hq => ?_
    obtain ⟨part, hp, box, hbox, hq⟩ := mem_sheetCorners.1 hq
    obtain ⟨u, v, hu, hv, rfl⟩ := mem_worldCorners.1 hq
    exact hB part hp box hbox _ (contains_of_corner (Part.isValid_of_bounds? hbox) hu hv)

end Program

end

/-- A quarter turn for every angle. -/
@[reducible] def Trigonometry.quarterTurn : Trigonometry := ⟨fun _ => 1, fun _ => 0, fun _ _ => 0⟩

attribute [local instance] Trigonometry.quarterTurn

def exactPoint (x y : ℝ) : Point EReal := ⟨x, y⟩

noncomputable def straightCut : Contour EReal where
  id := "contour-100"
  blockNumber := 100
  piercingType := ⟨1⟩
  cuttingType := ⟨1⟩
  piercingPosition := exactPoint 0 0
  toolCompensation := 0
  declaredSize := ⟨2, 1⟩
  remnant := false
  leadIn := none
  approachPath := []
  cuttingPath := [.line (exactPoint 0 0) (exactPoint 2 1)]
  endCode := 0
  endPosition := exactPoint 2 1
  web := 0
  allSegments := [.line (exactPoint 0 0) (exactPoint 2 1)]

noncomputable def turnedLine : Part EReal where
  id := "part-1"
  blockNumber := 100
  originBlockNumber := 1
  origin := exactPoint 7 0
  rotation := 90
  contours := [straightCut]

noncomputable def turnedSheet : Program EReal :=
  ⟨"", ⟨⟨0⟩, "", ⟨0⟩⟩, ⟨1, 9, 9⟩, ⟨9, 9⟩, [], [turnedLine], [], []⟩

/-- The far end of the line comes to lie at (6, 2). -/
theorem sheetBounds?_isLeast_turnedSheet :
    turnedSheet.HasFinitePoints ∧
      ∃ sheet, turnedSheet.sheetBounds? = some sheet ∧ sheet.Contains (exactPoint 6 2) := by
  have hvertices : straightCut.vertices =
      [exactPoint 0 0, exactPoint 0 0, exactPoint 2 1, exactPoint 2 1] := rfl
  have hfinite : ∀ x y, (exactPoint x y).isFinite = true :=
    fun x y => Point.isFinite_iff.2 ⟨x, y, rfl⟩
  have hpoints : turnedSheet.HasFinitePoints := by
    constructor
    · simp [turnedSheet, turnedLine, hfinite]
    · simp [turnedSheet, turnedLine, hvertices, hfinite]
  have hworld : turnedLine.toWorld (exactPoint 2 1) = exactPoint 6 2 := by
    have hrotation : ¬decide ((90 : EReal) = 0) = true := by norm_num
    have hx : ((2 : ℝ) : EReal) * (0 : ℝ) - (1 : ℝ) * (1 : ℝ) + (7 : ℝ) = (6 : ℝ) := by
      norm_cast
    have hy : ((2 : ℝ) : EReal) * (1 : ℝ) + (1 : ℝ) * (0 : ℝ) + (0 : ℝ) = (2 : ℝ) := by
      norm_cast
    calc turnedLine.toWorld (exactPoint 2 1)
        = Point.offset ⟨_, _⟩ _ _ := congrArg (Point.offset · _ _) (if_neg hrotation)
      _ = exactPoint 6 2 := congrArg₂ Point.mk hx hy
  obtain ⟨sheet, hsheet, hcontains⟩ := (Program.sheetBounds?_isLeast hpoints).2.2.1 turnedLine
    List.mem_cons_self straightCut List.mem_cons_self (exactPoint 2 1) (by simp [hvertices])
  exact ⟨hpoints, sheet, hsheet, hworld ▸ hcontains⟩

end SheetCut
