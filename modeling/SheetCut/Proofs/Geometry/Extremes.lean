import Mathlib.Analysis.Convex.Segment
import SheetCut.Proofs.Geometry.Turn

/-!
# Boxes of segments

In exact arithmetic the box of a segment is the least one around it. The extreme points of a circle
are added to the box of an arc exactly where the arc passes them, and between its ends and the
extreme points that it passes an arc never reaches farther out than there.
-/

namespace SheetCut

open Real

section Passing

attribute [local instance] Trigonometry.real

/-- The remainder of a division by a positive number, from zero up to below it. -/
theorem Scalar.exists_modulo_coe (a : ℝ) {b : ℝ} (hb : 0 < b) :
    ∃ r : ℝ, Scalar.modulo (a : EReal) b = r ∧ 0 ≤ r ∧ r < b ∧ ∃ k : ℤ, a = r + k * b := by
  have hrem : Scalar.rem (a : EReal) b = (a - b * wholePart (a / b) : ℝ) := rfl
  by_cases h : 0 ≤ a / b
  · have hlow := Int.floor_le (a / b)
    have hhigh := Int.lt_floor_add_one (a / b)
    rw [le_div_iff₀ hb] at hlow
    rw [div_lt_iff₀ hb] at hhigh
    have hr : 0 ≤ a - b * ⌊a / b⌋ := by linarith
    refine ⟨a - b * ⌊a / b⌋, ?_, hr, by linarith, ⌊a / b⌋, by ring⟩
    rw [Scalar.modulo, hrem, wholePart, if_pos h]
    exact if_neg (not_lt.2 (EReal.coe_nonneg.2 hr))
  · have hlow := Int.le_ceil (a / b)
    have hhigh := Int.ceil_lt_add_one (a / b)
    rw [div_le_iff₀ hb] at hlow
    rw [← sub_lt_iff_lt_add, lt_div_iff₀ hb] at hhigh
    have habs : Scalar.abs (b : EReal) = (b : ℝ) := by rw [Scalar.abs_coe, abs_of_pos hb]
    rw [Scalar.modulo, hrem, wholePart, if_neg h, habs]
    by_cases hr : a - b * ⌈a / b⌉ < 0
    · refine ⟨a - b * ⌈a / b⌉ + b, if_pos (EReal.coe_neg'.2 hr), by linarith, by linarith,
        ⌈a / b⌉ - 1, by push_cast; ring⟩
    · exact ⟨a - b * ⌈a / b⌉, if_neg fun h => hr (EReal.coe_neg'.1 h), not_lt.1 hr, by linarith,
        ⌈a / b⌉, by ring⟩

/-- Of the numbers that name one direction, the least one that is not negative decides whether some
part of a positive span does. -/
theorem le_iff_exists_sameDirection {x r l : ℝ} (hl : 0 < l) (hr : 0 ≤ r) (hlt : r < π + π)
    (hx : SameDirection x r) : r ≤ l ↔ ∃ t, 0 ≤ t ∧ t ≤ 1 ∧ SameDirection (t * l) x := by
  constructor
  · intro h
    refine ⟨r / l, div_nonneg hr hl.le, (div_le_one hl).2 h, ?_⟩
    rw [div_mul_cancel₀ r hl.ne']
    exact hx.symm
  · rintro ⟨t, ht, ht', hdir⟩
    obtain ⟨k, hk⟩ := hdir.trans hx
    have hturns : -1 < k := by
      have : (-1 : ℝ) < k := by nlinarith [mul_nonneg ht hl.le, pi_pos]
      exact_mod_cast this
    have hturns' : (0 : ℝ) ≤ k * (π + π) := by
      have : (0 : ℝ) ≤ k := by exact_mod_cast Int.lt_iff_add_one_le.1 hturns
      exact mul_nonneg this (add_pos pi_pos pi_pos).le
    nlinarith [mul_le_mul_of_nonneg_right ht' hl.le]

theorem angleWithinSweep_iff (angle start : ℝ) {sweep : ℝ} (hsweep : sweep ≠ 0) :
    angleWithinSweep (angle : EReal) start sweep = true ↔
      ∃ t, 0 ≤ t ∧ t ≤ 1 ∧ SameDirection (start + t * sweep) angle := by
  have hpos : 0 < π + π := add_pos pi_pos pi_pos
  have hne : ((sweep : EReal) == 0) = false := decide_eq_false (EReal.coe_ne_zero.2 hsweep)
  have hturn : (Scalar.fullTurn : EReal) = (π + π : ℝ) := rfl
  rw [angleWithinSweep, hne, if_neg Bool.false_ne_true, hturn, decide_eq_true_iff,
    Scalar.abs_coe]
  rcases hsweep.lt_or_gt with h | h
  · obtain ⟨r, hr, hnonneg, hlt, hdir⟩ := Scalar.exists_modulo_coe (start - angle) hpos
    rw [if_neg fun hpos => absurd (EReal.coe_pos.1 hpos) h.not_gt, ← EReal.coe_sub, hr,
      EReal.coe_le_coe_iff, abs_of_neg h,
      le_iff_exists_sameDirection (neg_pos.2 h) hnonneg hlt hdir]
    refine exists_congr fun t => and_congr_right fun _ => and_congr_right fun _ => ?_
    constructor
    · rintro ⟨k, hk⟩
      exact ⟨-k, by push_cast; linarith⟩
    · rintro ⟨k, hk⟩
      exact ⟨-k, by push_cast; linarith⟩
  · obtain ⟨r, hr, hnonneg, hlt, hdir⟩ := Scalar.exists_modulo_coe (angle - start) hpos
    rw [if_pos (EReal.coe_pos.2 h), ← EReal.coe_sub, hr, EReal.coe_le_coe_iff, abs_of_pos h,
      le_iff_exists_sameDirection h hnonneg hlt hdir]
    refine exists_congr fun t => and_congr_right fun _ => and_congr_right fun _ => ?_
    exact exists_congr fun k => ⟨fun hk => by linarith, fun hk => by linarith⟩

end Passing

/-- Within one turn the cosine falls first and then rises. -/
theorem cos_le_max {x y z : ℝ} (hx : 0 ≤ x) (hxz : x ≤ z) (hzy : z ≤ y) (hy : y ≤ 2 * π) :
    cos z ≤ max (cos x) (cos y) := by
  rcases le_total z π with hz | hz
  · exact le_max_of_le_left (cos_le_cos_of_nonneg_of_le_pi hx hz hxz)
  · refine le_max_of_le_right ?_
    rw [← cos_two_pi_sub z, ← cos_two_pi_sub y]
    exact cos_le_cos_of_nonneg_of_le_pi (by linarith) (by linarith) (by linarith)

/-- On the way between two angles the cosine is largest at an end, unless a whole turn is passed. -/
theorem cos_le_max_or_sameDirection {a b z : ℝ} (φ : ℝ) (hz : z ∈ Set.uIcc a b) :
    cos (z - φ) ≤ max (cos (a - φ)) (cos (b - φ)) ∨ ∃ w ∈ Set.uIcc a b, SameDirection w φ := by
  wlog hab : a ≤ b generalizing a b
  · rw [Set.uIcc_comm] at hz ⊢
    rw [max_comm]
    exact this hz (le_of_not_ge hab)
  rw [Set.uIcc_of_le hab] at hz ⊢
  have hturn : 0 < 2 * π := two_pi_pos
  -- The whole turns around `φ` next to `a`, one at or before it and one behind it.
  have hbefore := Int.floor_le ((a - φ) / (2 * π))
  have hbehind := Int.lt_floor_add_one ((a - φ) / (2 * π))
  rw [le_div_iff₀ hturn] at hbefore
  rw [div_lt_iff₀ hturn] at hbehind
  set k := ⌊(a - φ) / (2 * π)⌋
  by_cases hpass : φ + (k + 1) * (2 * π) ≤ b
  · exact .inr ⟨φ + (k + 1) * (2 * π), ⟨by linarith, hpass⟩, k + 1, by push_cast; ring⟩
  · refine .inl ?_
    rw [← cos_sub_int_mul_two_pi (z - φ) k, ← cos_sub_int_mul_two_pi (a - φ) k,
      ← cos_sub_int_mul_two_pi (b - φ) k]
    exact cos_le_max (by linarith) (by linarith [hz.1]) (by linarith [hz.2]) (by linarith)

/-- The angles between two others are reached by going a part of the way. -/
theorem mem_uIcc_add_iff {a s z : ℝ} :
    z ∈ Set.uIcc a (a + s) ↔ ∃ t, 0 ≤ t ∧ t ≤ 1 ∧ a + t * s = z := by
  rw [← segment_eq_uIcc, segment_eq_image']
  simp [and_assoc]

section Exact

attribute [local instance] Trigonometry.real

/-- The segment passes the point, at some parameter from 0 to 1. -/
def Segment.Passes (s : Segment EReal) (q : Point EReal) : Prop :=
  ∃ t : ℝ, 0 ≤ t ∧ t ≤ 1 ∧ s.pointAt t = q

namespace Bounds

structure Touches (b : Bounds EReal) (P : Point EReal → Prop) : Prop where
  left : ∃ q, P q ∧ q.x = b.min.x
  right : ∃ q, P q ∧ q.x = b.max.x
  bottom : ∃ q, P q ∧ q.y = b.min.y
  top : ∃ q, P q ∧ q.y = b.max.y

/-- The box is the least one around the segment: the segment stays inside, and it comes to each of
the four sides. -/
structure Frames (b : Bounds EReal) (s : Segment EReal) : Prop where
  contains : ∀ q, s.Passes q → b.Contains q
  touches : b.Touches s.Passes

variable {b : Bounds EReal} {P : Point EReal → Prop} {p : Point EReal}

theorem touches_update_empty (hp : P p) (hfinite : p.isFinite = true) :
    (empty.update p).Touches P := by
  rw [update_of_isFinite hfinite]
  exact ⟨⟨p, hp, (min_eq_right le_top).symm⟩, ⟨p, hp, (max_eq_right bot_le).symm⟩,
    ⟨p, hp, (min_eq_right le_top).symm⟩, ⟨p, hp, (max_eq_right bot_le).symm⟩⟩

theorem touches_update (h : b.Touches P) (hp : P p) : (b.update p).Touches P := by
  by_cases hfinite : p.isFinite = true
  · rw [update_of_isFinite hfinite]
    constructor
    · rcases min_choice b.min.x p.x with hside | hside <;> rw [hside]
      · exact h.left
      · exact ⟨p, hp, rfl⟩
    · rcases max_choice b.max.x p.x with hside | hside <;> rw [hside]
      · exact h.right
      · exact ⟨p, hp, rfl⟩
    · rcases min_choice b.min.y p.y with hside | hside <;> rw [hside]
      · exact h.bottom
      · exact ⟨p, hp, rfl⟩
    · rcases max_choice b.max.y p.y with hside | hside <;> rw [hside]
      · exact h.top
      · exact ⟨p, hp, rfl⟩
  · rwa [update_of_not_isFinite hfinite]

theorem touches_ofPoints {points : List (Point EReal)} (hp : P p) (hfinite : p.isFinite = true)
    (h : ∀ q ∈ points, P q) : (ofPoints (p :: points)).Touches P :=
  List.foldlRecOn (motive := fun b => Touches b P) points update (touches_update_empty hp hfinite)
    fun _ hb q hq => touches_update hb (h q hq)

end Bounds

namespace Arc

variable {a : Arc EReal}

theorem cardinal_coe (k : ℕ) : ((k : EReal) * Scalar.quarterTurn : EReal) = (k * (π / 2) : ℝ) := by
  have hquarter : (Scalar.quarterTurn : EReal) = (π / 2 : ℝ) := by
    show ((π : ℝ) : EReal) / ((2 : ℕ) : EReal) = _
    rw [EReal.coe_div]
    rfl
  rw [hquarter, EReal.coe_mul]
  rfl

theorem mem_cardinals_iff {x : EReal} :
    x ∈ (cardinals : List EReal) ↔ ∃ k : ℕ, k < 4 ∧ x = (k * (π / 2) : ℝ) := by
  rw [cardinals, List.mem_map]
  constructor
  · rintro ⟨k, hk, rfl⟩
    exact ⟨k, List.mem_range.1 hk, cardinal_coe k⟩
  · rintro ⟨k, hk, rfl⟩
    exact ⟨k, List.mem_range.2 hk, cardinal_coe k⟩

/-- The arc goes around `(u, v)` at the distance `r`, from the angle `α` on by `s`, and both ends
are where it says they are. -/
structure Turns (a : Arc EReal) (u v r α s : ℝ) : Prop where
  center_eq : a.center = ⟨u, v⟩
  radius_eq : a.radius = r
  radius_pos : 0 < r
  startAngle_eq : a.startAngle = α
  sweep_eq : a.sweep = s
  pointAt_eq : ∀ t : ℝ, a.pointAt t = a.center.onCircle a.radius (α + t * s : ℝ)
  start_eq : a.pointAt 0 = a.start
  stop_eq : a.pointAt 1 = a.stop

theorem exists_turns (h : a.Fits) (hdegenerate : ¬a.isDegenerate = true)
    (hcircle : a.stop.distance a.center = a.radius) :
    ∃ u v r α s : ℝ, a.Turns u v r α s := by
  obtain ⟨x, y, hstop⟩ := Point.isFinite_iff.1 h.isFinite_stop
  obtain ⟨u, v, hcenter⟩ := Point.isFinite_iff.1 h.isFinite_center
  obtain ⟨r, hr⟩ := exists_radius h
  obtain ⟨α, β, k, hα, -, hs⟩ := exists_sweep h hdegenerate
  refine ⟨u, v, r, α, _, hcenter, hr, radius_pos hdegenerate hr, hα, hs, ?_, pointAt_zero h, ?_⟩
  · intro t
    rw [pointAt, if_neg hdegenerate, hα, hs]
    rfl
  · rw [pointAt_one h hdegenerate, ← hcircle, hstop, hcenter]
    exact Point.onCircle_angleFrom x y u v

variable {u v r α s : ℝ}

namespace Turns

theorem onCircle_start (h : a.Turns u v r α s) : a.center.onCircle a.radius α = a.start := by
  have hzero := h.pointAt_eq 0
  rw [zero_mul, add_zero] at hzero
  rw [← h.start_eq]
  exact hzero.symm

theorem onCircle_stop (h : a.Turns u v r α s) :
    a.center.onCircle a.radius (α + s : ℝ) = a.stop := by
  have hone := h.pointAt_eq 1
  rw [one_mul] at hone
  rw [← h.stop_eq]
  exact hone.symm

theorem mem_extremes_iff (h : a.Turns u v r α s) {q : Point EReal} :
    q ∈ a.extremes ↔ s ≠ 0 ∧ ∃ k : ℕ, k < 4 ∧
      (∃ t, 0 ≤ t ∧ t ≤ 1 ∧ SameDirection (α + t * s) (k * (π / 2))) ∧
        q = a.center.onCircle a.radius (k * (π / 2) : ℝ) := by
  rw [extremes, List.mem_map, h.startAngle_eq, h.sweep_eq]
  by_cases hzero : s = 0
  · have hnone : ∀ x : EReal, angleWithinSweep x α 0 = false := by
      intro x
      rw [angleWithinSweep]
      exact if_pos (decide_eq_true rfl)
    simp [hnone, hzero]
  · simp only [List.mem_filter, mem_cardinals_iff]
    constructor
    · rintro ⟨x, ⟨⟨k, hk, rfl⟩, hpassed⟩, rfl⟩
      exact ⟨hzero, k, hk, (angleWithinSweep_iff _ _ hzero).1 hpassed, rfl⟩
    · rintro ⟨-, k, hk, hpassed, rfl⟩
      exact ⟨_, ⟨⟨k, hk, rfl⟩, (angleWithinSweep_iff _ _ hzero).2 hpassed⟩, rfl⟩

/-- An extreme point that is put into the box is a point of the arc. -/
theorem passes_of_mem_extremes (h : a.Turns u v r α s) {q : Point EReal} (hq : q ∈ a.extremes) :
    (Segment.arc a).Passes q := by
  obtain ⟨-, k, -, ⟨t, ht, ht', n, hdir⟩, rfl⟩ := h.mem_extremes_iff.1 hq
  refine ⟨t, ht, ht', ?_⟩
  show a.pointAt t = _
  rw [h.pointAt_eq, hdir, h.center_eq, h.radius_eq, ← two_mul]
  exact Point.onCircle_add_turns u v r _ n

/-- In each of the four directions one of the points that make the box lies at least as far out as
any point of the arc. -/
theorem exists_reach (h : a.Turns u v r α s) {k : ℕ} (hk : k < 4) {t : ℝ} (ht : 0 ≤ t)
    (ht' : t ≤ 1) : ∃ ψ : ℝ, a.center.onCircle a.radius ψ ∈ a.start :: a.stop :: a.extremes ∧
      cos (α + t * s - k * (π / 2)) ≤ cos (ψ - k * (π / 2)) := by
  have hstart : a.center.onCircle a.radius α ∈ a.start :: a.stop :: a.extremes := by
    rw [h.onCircle_start]
    exact List.mem_cons_self
  have hstop : a.center.onCircle a.radius (α + s : ℝ) ∈ a.start :: a.stop :: a.extremes := by
    rw [h.onCircle_stop]
    exact List.mem_cons_of_mem _ List.mem_cons_self
  by_cases hzero : s = 0
  · refine ⟨α, hstart, ?_⟩
    rw [hzero, mul_zero, add_zero]
  have hpassed : α + t * s ∈ Set.uIcc α (α + s) := mem_uIcc_add_iff.2 ⟨t, ht, ht', rfl⟩
  rcases cos_le_max_or_sameDirection (k * (π / 2)) hpassed with hmax | ⟨w, hw, hdir⟩
  · rcases le_max_iff.1 hmax with hend | hend
    · exact ⟨α, hstart, hend⟩
    · exact ⟨α + s, hstop, hend⟩
  · -- The extreme point itself is passed, and there the cosine is largest of all.
    obtain ⟨t', ht', ht'', rfl⟩ := mem_uIcc_add_iff.1 hw
    have hextreme := h.mem_extremes_iff.2 ⟨hzero, k, hk, ⟨t', ht', ht'', hdir⟩, rfl⟩
    refine ⟨k * (π / 2), List.mem_cons_of_mem _ (List.mem_cons_of_mem _ hextreme), ?_⟩
    rw [sub_self, cos_zero]
    exact cos_le_one _

theorem contains_bounds (h : a.Turns u v r α s) {t : ℝ} (ht : 0 ≤ t) (ht' : t ≤ 1) :
    (Segment.arc a).bounds.Contains (a.pointAt t) := by
  have hbox : ∀ ψ : ℝ, a.center.onCircle a.radius ψ ∈ a.start :: a.stop :: a.extremes →
      (Segment.arc a).bounds.Contains ⟨(u + r * cos ψ : ℝ), (v + r * sin ψ : ℝ)⟩ := by
    intro ψ hψ
    rw [h.center_eq, h.radius_eq, Point.onCircle_coe] at hψ
    exact Bounds.contains_foldl_update_of_mem hψ (Point.isFinite_iff.2 ⟨_, _, rfl⟩) _
  have hfar : ∀ {x y z : ℝ}, y ≤ z → x + r * y ≤ x + r * z := fun hyz => by
    have := mul_le_mul_of_nonneg_left hyz h.radius_pos.le
    linarith
  have hquarter : ∀ x, cos (x - (1 : ℕ) * (π / 2)) = sin x := fun x => by
    rw [Nat.cast_one, one_mul, cos_sub_pi_div_two]
  have hhalf : ∀ x, cos (x - (2 : ℕ) * (π / 2)) = -cos x := fun x => by
    rw [Nat.cast_two, mul_div_cancel₀ π two_ne_zero, cos_sub_pi]
  have hthree : ∀ x, cos (x - (3 : ℕ) * (π / 2)) = -sin x := fun x => by
    have hsplit : x - (3 : ℕ) * (π / 2) = x - π - π / 2 := by push_cast; ring
    rw [hsplit, cos_sub_pi_div_two, sin_sub_pi]
  rw [h.pointAt_eq, h.center_eq, h.radius_eq, Point.onCircle_coe]
  refine ⟨?_, ?_, ?_, ?_⟩
  · obtain ⟨ψ, hmem, hle⟩ := h.exists_reach (k := 2) (by decide) ht ht'
    rw [hhalf, hhalf, neg_le_neg_iff] at hle
    exact (hbox ψ hmem).1.trans (EReal.coe_le_coe_iff.2 (hfar hle))
  · obtain ⟨ψ, hmem, hle⟩ := h.exists_reach (k := 0) (by decide) ht ht'
    rw [Nat.cast_zero, zero_mul, sub_zero, sub_zero] at hle
    exact (EReal.coe_le_coe_iff.2 (hfar hle)).trans (hbox ψ hmem).2.1
  · obtain ⟨ψ, hmem, hle⟩ := h.exists_reach (k := 3) (by decide) ht ht'
    rw [hthree, hthree, neg_le_neg_iff] at hle
    exact (hbox ψ hmem).2.2.1.trans (EReal.coe_le_coe_iff.2 (hfar hle))
  · obtain ⟨ψ, hmem, hle⟩ := h.exists_reach (k := 1) (by decide) ht ht'
    rw [hquarter, hquarter] at hle
    exact (EReal.coe_le_coe_iff.2 (hfar hle)).trans (hbox ψ hmem).2.2.2

theorem frames_bounds (hfits : a.Fits) (h : a.Turns u v r α s) :
    (Segment.arc a).bounds.Frames (.arc a) := by
  constructor
  · rintro q ⟨t, ht, ht', rfl⟩
    exact h.contains_bounds ht ht'
  · apply Bounds.touches_ofPoints
    · exact ⟨0, le_rfl, zero_le_one, h.start_eq⟩
    · exact hfits.isFinite_start
    · intro q hq
      rcases List.mem_cons.1 hq with rfl | hq
      · exact ⟨1, zero_le_one, le_rfl, h.stop_eq⟩
      · exact h.passes_of_mem_extremes hq

end Turns

end Arc

namespace Segment

/-- The way from one number to another never leaves the numbers between them. -/
theorem le_lerp_and_lerp_le (x y : ℝ) {t : ℝ} (ht : 0 ≤ t) (ht' : t ≤ 1) :
    (x ≤ (1 - t) * x + t * y ∨ y ≤ (1 - t) * x + t * y) ∧
      ((1 - t) * x + t * y ≤ x ∨ (1 - t) * x + t * y ≤ y) := by
  rcases le_total x y with hxy | hxy
  · exact ⟨.inl (by nlinarith), .inr (by nlinarith)⟩
  · exact ⟨.inr (by nlinarith), .inl (by nlinarith)⟩

theorem frames_bounds_line {p q : Point EReal} (hp : p.isFinite = true) (hq : q.isFinite = true) :
    (line p q).bounds.Frames (.line p q) := by
  have hdrawn : (line p q).IsDrawn := ⟨hp, hq⟩
  constructor
  · rintro _ ⟨t, ht, ht', rfl⟩
    obtain ⟨hpminx, hpmaxx, hpminy, hpmaxy⟩ := contains_bounds (s := line p q) (.inl rfl) hp
    obtain ⟨hqminx, hqmaxx, hqminy, hqmaxy⟩ := contains_bounds (s := line p q) (.inr rfl) hq
    obtain ⟨x, y, rfl⟩ := Point.isFinite_iff.1 hp
    obtain ⟨x', y', rfl⟩ := Point.isFinite_iff.1 hq
    obtain ⟨hlowx, hhighx⟩ := le_lerp_and_lerp_le x x' ht ht'
    obtain ⟨hlowy, hhighy⟩ := le_lerp_and_lerp_le y y' ht ht'
    show Bounds.Contains _
      (⟨((1 - t) * x + t * x' : ℝ), ((1 - t) * y + t * y' : ℝ)⟩ : Point EReal)
    refine ⟨?_, ?_, ?_, ?_⟩
    · rcases hlowx with h | h
      · exact hpminx.trans (EReal.coe_le_coe_iff.2 h)
      · exact hqminx.trans (EReal.coe_le_coe_iff.2 h)
    · rcases hhighx with h | h
      · exact (EReal.coe_le_coe_iff.2 h).trans hpmaxx
      · exact (EReal.coe_le_coe_iff.2 h).trans hqmaxx
    · rcases hlowy with h | h
      · exact hpminy.trans (EReal.coe_le_coe_iff.2 h)
      · exact hqminy.trans (EReal.coe_le_coe_iff.2 h)
    · rcases hhighy with h | h
      · exact (EReal.coe_le_coe_iff.2 h).trans hpmaxy
      · exact (EReal.coe_le_coe_iff.2 h).trans hqmaxy
  · refine Bounds.touches_ofPoints ⟨0, le_rfl, zero_le_one, pointAt_zero hdrawn⟩ hp ?_
    intro x hx
    cases List.mem_singleton.1 hx
    exact ⟨1, zero_le_one, le_rfl, pointAt_one_line p q⟩

theorem frames_bounds_arcAround {start stop center : Point EReal} (clockwise : Bool)
    (hstart : start.isFinite = true) (hstop : stop.isFinite = true)
    (hcenter : center.isFinite = true) (hcircle : stop.distance center = start.distance center)
    (hradius : tolerance < start.distance center) :
    (arcAround start stop center clockwise).bounds.Frames
      (arcAround start stop center clockwise) := by
  have hfits : Arc.Fits ⟨start, stop, center, start.distance center, clockwise,
      start.angleFrom center, stop.angleFrom center⟩ := ⟨hstart, hstop, hcenter, rfl, rfl, rfl⟩
  obtain ⟨u, v, r, α, s, hturns⟩ :=
    Arc.exists_turns hfits (by simp [Arc.isDegenerate, hradius]) hcircle
  exact hturns.frames_bounds hfits

/-- The box of a line, and of an arc between two points of its circle, is the least one around it.
Whether an extreme point of the circle counts is decided right: an angle is passed exactly if some
part of the sweep leads to its direction. -/
theorem bounds_exact :
    (∀ p q : Point EReal, p.isFinite = true → q.isFinite = true →
      (line p q).bounds.Frames (.line p q)) ∧
    (∀ (start stop center : Point EReal) (clockwise : Bool), start.isFinite = true →
      stop.isFinite = true → center.isFinite = true →
      stop.distance center = start.distance center → tolerance < start.distance center →
      (arcAround start stop center clockwise).bounds.Frames
        (arcAround start stop center clockwise)) ∧
    ∀ angle start sweep : ℝ, sweep ≠ 0 →
      (angleWithinSweep (angle : EReal) start sweep = true ↔
        ∃ t, 0 ≤ t ∧ t ≤ 1 ∧ SameDirection (start + t * sweep) angle) :=
  ⟨fun _ _ => frames_bounds_line, fun _ _ _ => frames_bounds_arcAround,
    fun angle start _ => angleWithinSweep_iff angle start⟩

/-- An arc over the top of its circle: its box ends at the top, which is passed half way. -/
theorem bounds_exact_overTop :
    (⟨(-3 : ℝ), (4 : ℝ)⟩ : Point EReal).distance ⟨(0 : ℝ), (0 : ℝ)⟩ =
        (⟨(3 : ℝ), (4 : ℝ)⟩ : Point EReal).distance ⟨(0 : ℝ), (0 : ℝ)⟩ ∧
      tolerance < (⟨(3 : ℝ), (4 : ℝ)⟩ : Point EReal).distance ⟨(0 : ℝ), (0 : ℝ)⟩ ∧
      (arcAround ⟨(3 : ℝ), (4 : ℝ)⟩ ⟨(-3 : ℝ), (4 : ℝ)⟩ ⟨(0 : ℝ), (0 : ℝ)⟩ false :
        Segment EReal).bounds.Frames
          (arcAround ⟨(3 : ℝ), (4 : ℝ)⟩ ⟨(-3 : ℝ), (4 : ℝ)⟩ ⟨(0 : ℝ), (0 : ℝ)⟩ false) ∧
      π ≠ 0 ∧ angleWithinSweep ((π / 2 : ℝ) : EReal) (0 : ℝ) (π : ℝ) = true := by
  have hstop : (0 - -3 : ℝ) ^ 2 + (0 - 4) ^ 2 = 5 ^ 2 := by norm_num
  have hstart : (0 - 3 : ℝ) ^ 2 + (0 - 4) ^ 2 = 5 ^ 2 := by norm_num
  have hcircle : (⟨(-3 : ℝ), (4 : ℝ)⟩ : Point EReal).distance ⟨(0 : ℝ), (0 : ℝ)⟩ =
      (⟨(3 : ℝ), (4 : ℝ)⟩ : Point EReal).distance ⟨(0 : ℝ), (0 : ℝ)⟩ := by
    rw [Point.distance_coe, Point.distance_coe, hstop, hstart]
  have hradius : (tolerance : EReal) <
      (⟨(3 : ℝ), (4 : ℝ)⟩ : Point EReal).distance ⟨(0 : ℝ), (0 : ℝ)⟩ := by
    rw [Point.distance_coe, hstart, Real.sqrt_sq (by norm_num)]
    exact tolerance_lt_five
  have hfinite : ∀ x y : ℝ, (⟨x, y⟩ : Point EReal).isFinite = true :=
    fun x y => Point.isFinite_iff.2 ⟨x, y, rfl⟩
  refine ⟨hcircle, hradius, bounds_exact.2.1 _ _ _ false (hfinite _ _) (hfinite _ _) (hfinite _ _)
    hcircle hradius, pi_ne_zero, (bounds_exact.2.2 (π / 2) 0 π pi_ne_zero).2 ?_⟩
  exact ⟨1 / 2, by norm_num, by norm_num, 0, by push_cast; ring⟩

end Segment

end Exact

end SheetCut
