import SheetCut.Program.Basic
import SheetCut.Proofs.Binary64.Order

/-!
# Boxes of floats

A box is grown by points and by other boxes, in any order and in groups of any kind. All that counts
is which finite points took part: the sides are at their least and greatest coordinates, and without
any the box is not valid.
-/

namespace SheetCut

namespace Binary64

open Float.Model

section Ranges

variable {x y low high low' high' : Float} {xs ys : List Float}

/-- Equality of numbers, for which the two zeros are the same. -/
theorem beq_of_le_of_le (hxy : x ≤ y) (hyx : y ≤ x) : (x == y) = true := by
  obtain ⟨hx, hy⟩ := isNumber_of_le hxy
  rw [le_iff_place hx hy] at hxy
  rw [le_iff_place hy hx] at hyx
  change ((unpack x).compare (unpack y) == some .eq) = true
  rw [compare_eq hx hy, beq_iff_eq, Option.some_inj, compare_eq_iff_eq]
  exact le_antisymm hxy hyx

theorem le_or_le (hx : IsNumber x) (hy : IsNumber y) : x ≤ y ∨ y ≤ x := by
  rw [le_iff_place hx hy, le_iff_place hy hx]
  exact le_total _ _

/-- The smaller of two numbers is one of them, and no more than either. -/
theorem lower_spec (hx : IsNumber x) (hy : IsNumber y) :
    (Scalar.lower x y = x ∨ Scalar.lower x y = y) ∧
      Scalar.lower x y ≤ x ∧ Scalar.lower x y ≤ y := by
  by_cases h : y ≤ x
  · have heq : Scalar.lower x y = y := if_pos (.inl h)
    rw [heq]
    exact ⟨.inr rfl, h, le_refl_float hy⟩
  · have heq : Scalar.lower x y = x := if_neg (not_or.2 ⟨h, not_not.2 (le_refl_float hx)⟩)
    rw [heq]
    exact ⟨.inl rfl, le_refl_float hx, (le_or_le hx hy).resolve_right h⟩

theorem upper_spec (hx : IsNumber x) (hy : IsNumber y) :
    (Scalar.upper x y = x ∨ Scalar.upper x y = y) ∧
      x ≤ Scalar.upper x y ∧ y ≤ Scalar.upper x y := by
  by_cases h : x ≤ y
  · have heq : Scalar.upper x y = y := if_pos (.inl h)
    rw [heq]
    exact ⟨.inr rfl, h, le_refl_float hy⟩
  · have heq : Scalar.upper x y = x := if_neg (not_or.2 ⟨h, not_not.2 (le_refl_float hx)⟩)
    rw [heq]
    exact ⟨.inl rfl, le_refl_float hx, (le_or_le hx hy).resolve_left h⟩

theorem le_infinity (hx : x.isFinite = true) : x ≤ 1 / 0 := by
  have hinfinity : unpack (1 / 0) = .infinity .positive := rfl
  have hn := isNumber_of_isFinite hx
  rw [le_iff_place hn (by simp [IsNumber, hinfinity]), place, place, hinfinity]
  exact ((isFinite_iff_place hn).1 hx).2.le

theorem neg_infinity_le (hx : x.isFinite = true) : -(1 / 0) ≤ x := by
  have hinfinity : unpack (-(1 / 0)) = .infinity .negative := rfl
  have hn := isNumber_of_isFinite hx
  rw [le_iff_place (by simp [IsNumber, hinfinity]) hn, place, place, hinfinity]
  exact ((isFinite_iff_place hn).1 hx).1.le

theorem lower_infinity (hx : x.isFinite = true) : Scalar.lower Scalar.infinity x = x :=
  if_pos (.inl (le_infinity hx))

theorem upper_neg_infinity (hx : x.isFinite = true) : Scalar.upper (-Scalar.infinity) x = x :=
  if_pos (.inl (neg_infinity_le hx))

structure IsRange (low high : Float) (xs : List Float) : Prop where
  low_mem : low ∈ xs
  high_mem : high ∈ xs
  low_le : ∀ x ∈ xs, low ≤ x
  le_high : ∀ x ∈ xs, x ≤ high

theorem isRange_singleton (hx : IsNumber x) : IsRange x x [x] := by
  have hle := le_refl_float hx
  constructor <;> simp [hle]

theorem IsRange.append (h : IsRange low high xs) (hx : IsNumber x) :
    IsRange (Scalar.lower low x) (Scalar.upper high x) (xs ++ [x]) := by
  have hends := h.low_le high h.high_mem
  obtain ⟨hlow, hlow_le, hle⟩ := lower_spec (isNumber_of_le hends).1 hx
  obtain ⟨hhigh, hle_high, hge⟩ := upper_spec (isNumber_of_le hends).2 hx
  constructor
  · rcases hlow with heq | heq <;> simp [heq, h.low_mem]
  · rcases hhigh with heq | heq <;> simp [heq, h.high_mem]
  · simp only [List.forall_mem_append, List.forall_mem_singleton]
    exact ⟨fun y hy => le_trans_float hlow_le (h.low_le y hy), hle⟩
  · simp only [List.forall_mem_append, List.forall_mem_singleton]
    exact ⟨fun y hy => le_trans_float (h.le_high y hy) hle_high, hge⟩

/-- The two ends of a range stand for all of it. -/
theorem IsRange.append_range (h : IsRange low high (xs ++ [low', high']))
    (h' : IsRange low' high' ys) : IsRange low high (xs ++ ys) := by
  have hmem : ∀ x ∈ xs ++ [low', high'], x ∈ xs ++ ys := by
    intro x hx
    simp only [List.mem_append, List.mem_cons, List.not_mem_nil, or_false] at hx ⊢
    rcases hx with hx | rfl | rfl
    · exact .inl hx
    · exact .inr h'.low_mem
    · exact .inr h'.high_mem
  constructor
  · exact hmem low h.low_mem
  · exact hmem high h.high_mem
  · rw [List.forall_mem_append]
    constructor
    · exact fun y hy => h.low_le y (List.mem_append_left _ hy)
    · exact fun y hy => le_trans_float (h.low_le low' (by simp)) (h'.low_le y hy)
  · rw [List.forall_mem_append]
    constructor
    · exact fun y hy => h.le_high y (List.mem_append_left _ hy)
    · exact fun y hy => le_trans_float (h'.le_high y hy) (h.le_high high' (by simp))

theorem IsRange.congr (h : IsRange low high xs) (hmem : ∀ x, x ∈ xs ↔ x ∈ ys) :
    IsRange low high ys := by
  constructor
  · exact (hmem low).1 h.low_mem
  · exact (hmem high).1 h.high_mem
  · exact fun x hx => h.low_le x ((hmem x).2 hx)
  · exact fun x hx => h.le_high x ((hmem x).2 hx)

/-- The ends of a range are determined as numbers. -/
theorem IsRange.beq (h : IsRange low high xs) (h' : IsRange low' high' xs) :
    (low == low') = true ∧ (high == high') = true := by
  constructor
  · exact beq_of_le_of_le (h.low_le low' h'.low_mem) (h'.low_le low h.low_mem)
  · exact beq_of_le_of_le (h'.le_high high h.high_mem) (h.le_high high' h'.high_mem)

end Ranges

end Binary64

namespace Bounds

open Binary64

variable {b other : Bounds Float} {p : Point Float} {ps qs : List (Point Float)}

def coordinates (axis : Point Float → Float) (ps : List (Point Float)) : List Float :=
  (ps.filter Point.isFinite).map axis

structure IsBoxOf (b : Bounds Float) (ps : List (Point Float)) : Prop where
  x : IsRange b.min.x b.max.x (coordinates Point.x ps)
  y : IsRange b.min.y b.max.y (coordinates Point.y ps)

/-- The box is around the points, or it is the empty box and none of the points is finite. -/
def IsGrownBy (b : Bounds Float) (ps : List (Point Float)) : Prop :=
  (∀ p ∈ ps, p.isFinite = false) ∧ b = empty ∨ b.IsBoxOf ps

/-- The sides of the two boxes are the same numbers. -/
structure SameSides (b other : Bounds Float) : Prop where
  min_x : (b.min.x == other.min.x) = true
  min_y : (b.min.y == other.min.y) = true
  max_x : (b.max.x == other.max.x) = true
  max_y : (b.max.y == other.max.y) = true

theorem coordinates_concat (axis : Point Float → Float) (ps : List (Point Float))
    (hp : p.isFinite = true) : coordinates axis (ps ++ [p]) = coordinates axis ps ++ [axis p] := by
  simp [coordinates, hp]

theorem coordinates_eq_nil (axis : Point Float → Float) (hps : ∀ p ∈ ps, p.isFinite = false) :
    coordinates axis ps = [] := by
  rw [coordinates, List.map_eq_nil_iff, List.filter_eq_nil_iff]
  simpa using hps

theorem mem_coordinates_iff {axis : Point Float → Float}
    (hmem : ∀ p, p.isFinite = true → (p ∈ ps ↔ p ∈ qs)) (c : Float) :
    c ∈ coordinates axis ps ↔ c ∈ coordinates axis qs := by
  simp only [coordinates, List.mem_map, List.mem_filter]
  constructor
  · rintro ⟨p, ⟨hp, hfinite⟩, rfl⟩
    exact ⟨p, ⟨(hmem p hfinite).1 hp, hfinite⟩, rfl⟩
  · rintro ⟨p, ⟨hp, hfinite⟩, rfl⟩
    exact ⟨p, ⟨(hmem p hfinite).2 hp, hfinite⟩, rfl⟩

theorem isNumber_of_point (hp : p.isFinite = true) : IsNumber p.x ∧ IsNumber p.y := by
  rw [Point.isFinite, Bool.and_eq_true] at hp
  exact ⟨isNumber_of_isFinite hp.1, isNumber_of_isFinite hp.2⟩

theorem isGrownBy_empty : (empty : Bounds Float).IsGrownBy [] := .inl ⟨by simp, rfl⟩

/-- A finite point is the whole box where there was none. -/
theorem isBoxOf_update_empty (hps : ∀ q ∈ ps, q.isFinite = false) (hp : p.isFinite = true) :
    (update empty p).IsBoxOf (ps ++ [p]) := by
  have hcoordinates : ∀ axis, coordinates axis (ps ++ [p]) = [axis p] := by
    intro axis
    rw [coordinates_concat axis ps hp, coordinates_eq_nil axis hps, List.nil_append]
  obtain ⟨hx, hy⟩ := isNumber_of_point hp
  rw [Point.isFinite, Bool.and_eq_true] at hp
  constructor
  · rw [hcoordinates]
    simpa [update, Point.isFinite, hp, empty, lower_infinity hp.1, upper_neg_infinity hp.1] using
      isRange_singleton hx
  · rw [hcoordinates]
    simpa [update, Point.isFinite, hp, empty, lower_infinity hp.2, upper_neg_infinity hp.2] using
      isRange_singleton hy

theorem IsBoxOf.update (h : b.IsBoxOf ps) (hp : p.isFinite = true) :
    (b.update p).IsBoxOf (ps ++ [p]) := by
  obtain ⟨hx, hy⟩ := isNumber_of_point hp
  constructor
  · rw [coordinates_concat Point.x ps hp, Bounds.update, if_pos hp]
    exact h.x.append hx
  · rw [coordinates_concat Point.y ps hp, Bounds.update, if_pos hp]
    exact h.y.append hy

/-- Only the finite points count, and neither their order nor how often they occur. -/
theorem IsGrownBy.congr (h : b.IsGrownBy ps)
    (hmem : ∀ p, p.isFinite = true → (p ∈ ps ↔ p ∈ qs)) : b.IsGrownBy qs := by
  rcases h with ⟨hps, rfl⟩ | h
  · left
    refine ⟨?_, rfl⟩
    intro p hp
    by_contra hfinite
    rw [Bool.not_eq_false] at hfinite
    rw [hps p ((hmem p hfinite).2 hp)] at hfinite
    cases hfinite
  · right
    exact ⟨h.x.congr (mem_coordinates_iff hmem), h.y.congr (mem_coordinates_iff hmem)⟩

theorem IsGrownBy.append_of_not_finite (h : b.IsGrownBy ps)
    (hqs : ∀ q ∈ qs, q.isFinite = false) : b.IsGrownBy (ps ++ qs) := by
  apply h.congr
  intro p hp
  have hnot : p ∉ qs := fun hmem => by simp [hqs p hmem] at hp
  simp [hnot]

/-- A finite point makes a box, and another point changes nothing. -/
theorem IsGrownBy.update (h : b.IsGrownBy ps) (p : Point Float) :
    (b.update p).IsGrownBy (ps ++ [p]) := by
  by_cases hp : p.isFinite = true
  · right
    rcases h with ⟨hps, rfl⟩ | h
    · exact isBoxOf_update_empty hps hp
    · exact h.update hp
  · rw [Bounds.update, if_neg hp]
    apply h.append_of_not_finite
    simpa using hp

theorem IsBoxOf.isFinite_corners (h : b.IsBoxOf ps) :
    b.min.isFinite = true ∧ b.max.isFinite = true := by
  have hfinite : ∀ c, (c ∈ coordinates Point.x ps ∨ c ∈ coordinates Point.y ps) →
      c.isFinite = true := by
    intro c hc
    simp only [coordinates, List.mem_map, List.mem_filter, Point.isFinite, Bool.and_eq_true] at hc
    rcases hc with ⟨p, ⟨-, hp⟩, rfl⟩ | ⟨p, ⟨-, hp⟩, rfl⟩
    · exact hp.1
    · exact hp.2
  rw [Point.isFinite, Point.isFinite, Bool.and_eq_true, Bool.and_eq_true]
  exact ⟨⟨hfinite _ (.inl h.x.low_mem), hfinite _ (.inr h.y.low_mem)⟩,
    hfinite _ (.inl h.x.high_mem), hfinite _ (.inr h.y.high_mem)⟩

theorem IsBoxOf.isValid (h : b.IsBoxOf ps) : b.isValid = true := by
  obtain ⟨hmin, hmax⟩ := h.isFinite_corners
  have hx : b.min.x ≤ b.max.x := h.x.low_le _ h.x.high_mem
  have hy : b.min.y ≤ b.max.y := h.y.low_le _ h.y.high_mem
  simp [Bounds.isValid, hmin, hmax, hx, hy]

theorem IsGrownBy.isBoxOf (h : b.IsGrownBy ps) (hvalid : b.isValid = true) : b.IsBoxOf ps := by
  rcases h with ⟨-, rfl⟩ | h
  · cases hvalid
  · exact h

theorem IsGrownBy.isValid_iff (h : b.IsGrownBy ps) :
    b.isValid = true ↔ ∃ p ∈ ps, p.isFinite = true := by
  rcases h with ⟨hps, rfl⟩ | h
  · constructor
    · intro hvalid
      cases hvalid
    · rintro ⟨p, hp, hfinite⟩
      rw [hps p hp] at hfinite
      cases hfinite
  · constructor
    · intro _
      obtain ⟨p, hp, -⟩ := List.mem_map.1 h.x.low_mem
      exact ⟨p, List.mem_filter.1 hp⟩
    · intro _
      exact h.isValid

/-- The corners of a valid box stand for all points that it is around. -/
theorem IsGrownBy.merge (h : b.IsGrownBy ps) (h' : other.IsGrownBy qs) :
    (b.merge other).IsGrownBy (ps ++ qs) := by
  rcases h' with ⟨hqs, rfl⟩ | h'
  · exact h.append_of_not_finite hqs
  · obtain ⟨hmin, hmax⟩ := h'.isFinite_corners
    rw [Bounds.merge, if_pos h'.isValid]
    have hvalid : ((b.update other.min).update other.max).isValid = true :=
      ((h.update other.min).update other.max).isValid_iff.2 ⟨_, by simp, hmax⟩
    have hbox := ((h.update other.min).update other.max).isBoxOf hvalid
    have hcoordinates : ∀ axis, coordinates axis (ps ++ [other.min] ++ [other.max]) =
        coordinates axis ps ++ [axis other.min, axis other.max] := by
      intro axis
      rw [coordinates_concat axis _ hmax, coordinates_concat axis _ hmin, List.append_assoc]
      rfl
    have happend : ∀ axis, coordinates axis (ps ++ qs) =
        coordinates axis ps ++ coordinates axis qs := by
      simp [coordinates]
    right
    constructor
    · rw [happend]
      exact (hcoordinates Point.x ▸ hbox.x).append_range h'.x
    · rw [happend]
      exact (hcoordinates Point.y ▸ hbox.y).append_range h'.y

theorem IsGrownBy.sameSides (h : b.IsGrownBy ps) (h' : other.IsGrownBy ps) :
    b.SameSides other := by
  by_cases hfinite : ∃ p ∈ ps, p.isFinite = true
  · have hbox := h.isBoxOf (h.isValid_iff.2 hfinite)
    have hbox' := h'.isBoxOf (h'.isValid_iff.2 hfinite)
    exact ⟨(hbox.x.beq hbox'.x).1, (hbox.y.beq hbox'.y).1, (hbox.x.beq hbox'.x).2,
      (hbox.y.beq hbox'.y).2⟩
  · have hempty : ∀ {c : Bounds Float}, c.IsGrownBy ps → c = empty := by
      intro c hc
      rcases hc with ⟨-, hc⟩ | hc
      · exact hc
      · exact absurd ((IsGrownBy.isValid_iff (.inr hc)).1 hc.isValid) hfinite
    rw [hempty h, hempty h']
    constructor <;> rfl

theorem IsGrownBy.foldl_update (h : b.IsGrownBy ps) (qs : List (Point Float)) :
    (qs.foldl Bounds.update b).IsGrownBy (ps ++ qs) := by
  induction qs generalizing b ps with
  | nil => simpa using h
  | cons q qs ih => simpa using ih (h.update q)

theorem IsGrownBy.foldl_merge {β : Type} {box : β → Bounds Float} {points : β → List (Point Float)}
    (hbox : ∀ x, (box x).IsGrownBy (points x)) (h : b.IsGrownBy ps) (items : List β) :
    (items.foldl (fun b x => b.merge (box x)) b).IsGrownBy (ps ++ items.flatMap points) := by
  induction items generalizing b ps with
  | nil => simpa using h
  | cons x items ih => simpa using ih (h.merge (hbox x))

end Bounds

/-- The ends of the segment and the extreme points in between. -/
def Segment.landmarks (s : Segment Float) : List (Point Float) :=
  s.start :: s.stop ::
    match s with
    | .line .. => []
    | .arc a => a.extremes

/-- The points that the box of the contour is around. -/
def Contour.landmarks (c : Contour Float) : List (Point Float) :=
  c.allSegments.flatMap Segment.landmarks ++ [c.piercingPosition] ++
    if c.allSegments.isEmpty then [] else [c.endPosition]

namespace Bounds

theorem isGrownBy_segment (s : Segment Float) : s.bounds.IsGrownBy s.landmarks := by
  cases s with
  | line p q => exact isGrownBy_empty.foldl_update [p, q]
  | arc a => exact isGrownBy_empty.foldl_update (a.start :: a.stop :: a.extremes)

theorem isGrownBy_ofSegments (segments : List (Segment Float)) :
    (ofSegments segments).IsGrownBy (segments.flatMap Segment.landmarks) :=
  isGrownBy_empty.foldl_merge isGrownBy_segment segments

theorem isGrownBy_contour (c : Contour Float) : c.bounds.IsGrownBy c.landmarks := by
  have hpierced := (isGrownBy_ofSegments c.allSegments).update c.piercingPosition
  rw [Contour.bounds, Contour.landmarks]
  by_cases hnil : c.allSegments.isEmpty = true
  · simpa [hnil] using hpierced
  · simpa [hnil] using hpierced.update c.endPosition

theorem isGrownBy_contours (cs : List (Contour Float)) :
    (cs.foldl (fun b c => b.merge c.bounds) empty).IsGrownBy (cs.flatMap Contour.landmarks) :=
  isGrownBy_empty.foldl_merge isGrownBy_contour cs

end Bounds

/-- How a box is grown from the empty one, by points and by boxes that were grown themselves. -/
inductive Growth where
  | empty
  | update (t : Growth) (p : Point Float)
  | merge (t other : Growth)

namespace Growth

def box : Growth → Bounds Float
  | empty => Bounds.empty
  | update t p => t.box.update p
  | merge t other => t.box.merge other.box

def points : Growth → List (Point Float)
  | empty => []
  | update t p => t.points ++ [p]
  | merge t other => t.points ++ other.points

theorem isGrownBy_box (t : Growth) : t.box.IsGrownBy t.points := by
  induction t with
  | empty => exact Bounds.isGrownBy_empty
  | update t p ih => exact ih.update p
  | merge t other ih ihOther => exact ih.merge ihOther

end Growth

namespace Bounds

/-- A box is determined by the finite points that took part in it: it is valid if there are any, and
its sides are then at their least and greatest coordinates. So neither order nor grouping nor
repetition counts, for segments and for contours too. -/
theorem box_of_points :
    (∀ t : Growth, (t.box.isValid = true ↔ ∃ p ∈ t.points, p.isFinite = true) ∧
      (t.box.isValid = true → t.box.IsBoxOf t.points)) ∧
    (∀ t t' : Growth, (∀ p, p.isFinite = true → (p ∈ t.points ↔ p ∈ t'.points)) →
      t.box.SameSides t'.box) ∧
    (∀ xs ys : List (Segment Float), xs.Perm ys → (ofSegments xs).SameSides (ofSegments ys)) ∧
    (∀ xs ys : List (Segment Float),
      (ofSegments (xs ++ ys)).SameSides ((ofSegments xs).merge (ofSegments ys))) ∧
    ∀ (part : Part Float) (cs : List (Contour Float)), part.contours.Perm cs →
      (part.bounds?.isSome = true ↔ ∃ p ∈ cs.flatMap Contour.landmarks, p.isFinite = true) ∧
      ∀ b, part.bounds? = some b → b.IsBoxOf (cs.flatMap Contour.landmarks) ∧
        b.SameSides (cs.foldl (fun b c => b.merge c.bounds) empty) := by
  refine ⟨?_, ?_, ?_, ?_, ?_⟩
  · intro t
    exact ⟨t.isGrownBy_box.isValid_iff, t.isGrownBy_box.isBoxOf⟩
  · intro t t' hmem
    exact (t.isGrownBy_box.congr hmem).sameSides t'.isGrownBy_box
  · intro xs ys hperm
    apply ((isGrownBy_ofSegments xs).congr _).sameSides (isGrownBy_ofSegments ys)
    exact fun p _ => (hperm.flatMap_right Segment.landmarks).mem_iff
  · intro xs ys
    apply (isGrownBy_ofSegments (xs ++ ys)).sameSides
    rw [List.flatMap_append]
    exact (isGrownBy_ofSegments xs).merge (isGrownBy_ofSegments ys)
  · intro part cs hperm
    have hgrown := (isGrownBy_contours part.contours).congr
      fun p _ => (hperm.flatMap_right Contour.landmarks).mem_iff
    rw [Part.bounds?, valid?]
    constructor
    · rw [← hgrown.isValid_iff]
      simp
    · intro b hb
      obtain ⟨hvalid, rfl⟩ := Option.ite_some_none_eq_some.1 hb
      exact ⟨hgrown.isBoxOf hvalid, hgrown.sameSides (isGrownBy_contours cs)⟩

/-- A point that is not finite in one coordinate, and two finite points in one box and in two. -/
theorem box_of_points_halfFinite :
    let lost := Growth.empty.update ⟨0 / 0, 1⟩
    let pair := (Growth.empty.update ⟨3, -0⟩).update ⟨1, 2⟩
    let single := Growth.empty.update ⟨1, 2⟩
    lost.box.isValid = false ∧ (lost.merge pair).box.isValid = true ∧
      (lost.merge pair).box.SameSides ((single.update ⟨3, -0⟩).merge (single.merge lost)).box := by
  have hlost : Point.isFinite (⟨0 / 0, 1⟩ : Point Float) = false := rfl
  have hpoint : Point.isFinite (⟨1, 2⟩ : Point Float) = true := rfl
  refine ⟨?_, ?_, ?_⟩
  · rw [← Bool.not_eq_true, (box_of_points.1 _).1]
    simp [Growth.points, hlost]
  · rw [(box_of_points.1 _).1]
    exact ⟨⟨1, 2⟩, by simp [Growth.points], hpoint⟩
  · apply box_of_points.2.1
    intro p hp
    have hne : p ≠ ⟨0 / 0, 1⟩ := by
      rintro rfl
      rw [hlost] at hp
      cases hp
    simp only [Growth.points, List.mem_append, List.mem_singleton, List.not_mem_nil, hne, false_or,
      or_false]
    rw [or_comm, or_right_comm, or_self]

end Bounds

end SheetCut
