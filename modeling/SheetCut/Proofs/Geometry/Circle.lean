import Mathlib.Analysis.SpecialFunctions.Complex.Arg
import SheetCut.Proofs.Geometry.Box
import SheetCut.Geometry.Segment

/-!
# Arcs in exact arithmetic

With the functions of angles that they are named after, an arc begins at its start and goes around
its center to the direction of its stop. The start decides the radius, so the arc ends at its stop
only if that lies on the circle.
-/

namespace SheetCut

@[reducible] noncomputable def Trigonometry.real : Trigonometry where
  sin := Real.sin
  cos := Real.cos
  atan2 := fun y x => Complex.arg ⟨x, y⟩

/-- How far the last point of a sampled segment lies from its stop. The radius of an arc is taken at
its start, and its stop may lie off the circle; an arc without a direction stays at its start. -/
def Segment.endGap {α : Type} [Scalar α] : Segment α → α
  | line .. => 0
  | arc a =>
    if a.isDegenerate then a.start.distance a.stop
    else Scalar.abs (a.stop.distance a.center - a.radius)

attribute [local instance] Trigonometry.real

theorem Scalar.abs_coe (x : ℝ) : Scalar.abs (x : EReal) = (|x| : ℝ) := by
  show max (x : EReal) (-x) = _
  rw [← EReal.coe_neg, ← EReal.coe_strictMono.monotone.map_max]
  rfl

theorem Scalar.hypot_coe (x y : ℝ) :
    Scalar.hypot (x : EReal) (y : EReal) = (√(x ^ 2 + y ^ 2) : ℝ) :=
  if_pos ⟨EReal.coe_ne_top x, EReal.coe_ne_bot x, EReal.coe_ne_top y, EReal.coe_ne_bot y⟩

namespace Point

theorem distance_coe (x y u v : ℝ) :
    (⟨x, y⟩ : Point EReal).distance ⟨u, v⟩ = (√((u - x) ^ 2 + (v - y) ^ 2) : ℝ) :=
  Scalar.hypot_coe (u - x) (v - y)

theorem angleFrom_coe (x y u v : ℝ) :
    (⟨x, y⟩ : Point EReal).angleFrom ⟨u, v⟩ = (Complex.arg ⟨x - u, y - v⟩ : ℝ) := rfl

theorem onCircle_coe (x y r θ : ℝ) :
    (⟨x, y⟩ : Point EReal).onCircle r θ = ⟨(x + r * Real.cos θ : ℝ), (y + r * Real.sin θ : ℝ)⟩ := by
  simp only [EReal.coe_add, EReal.coe_mul]
  rfl

end Point

/-- The sweep leads from one angle to the other, up to a whole number of turns. -/
theorem exists_arcSweep_coe (a b : ℝ) (clockwise : Bool) :
    ∃ k : ℤ, arcSweep (a : EReal) b clockwise = (b - a + k * (2 * Real.pi) : ℝ) := by
  have hspan : ((b - a + (0 : ℤ) * (2 * Real.pi) : ℝ) : EReal) = (b - a : ℝ) := by
    rw [Int.cast_zero, zero_mul, add_zero]
  have hback : ((b - a + (-1 : ℤ) * (2 * Real.pi) : ℝ) : EReal) =
      (b - a - (Real.pi + Real.pi) : ℝ) := by
    congr 1
    push_cast
    ring
  have hon : ((b - a + (1 : ℤ) * (2 * Real.pi) : ℝ) : EReal) =
      (b - a + (Real.pi + Real.pi) : ℝ) := by
    congr 1
    push_cast
    ring
  cases clockwise with
  | true =>
    by_cases h : (0 : EReal) < (b - a : ℝ)
    · exact ⟨-1, (if_pos h).trans hback.symm⟩
    · exact ⟨0, (if_neg h).trans hspan.symm⟩
  | false =>
    by_cases h : ((b - a : ℝ) : EReal) < 0
    · exact ⟨1, (if_pos h).trans hon.symm⟩
    · exact ⟨0, (if_neg h).trans hspan.symm⟩

/-- A point in polar coordinates around another one. -/
theorem Point.exists_polar (x y u v : ℝ) : ∃ ρ θ : ℝ,
    (⟨x, y⟩ : Point EReal).distance ⟨u, v⟩ = ρ ∧ (⟨x, y⟩ : Point EReal).angleFrom ⟨u, v⟩ = θ ∧
      x = u + ρ * Real.cos θ ∧ y = v + ρ * Real.sin θ := by
  have hnorm : √((u - x) ^ 2 + (v - y) ^ 2) = ‖(⟨x - u, y - v⟩ : ℂ)‖ := by
    rw [Complex.norm_eq_sqrt_sq_add_sq, ← neg_sub x u, ← neg_sub y v, neg_sq, neg_sq]
  refine ⟨_, _, distance_coe x y u v, angleFrom_coe x y u v, ?_, ?_⟩
  · rw [hnorm, Complex.norm_mul_cos_arg, add_sub_cancel]
  · rw [hnorm, Complex.norm_mul_sin_arg, add_sub_cancel]

/-- A point is found again in its direction from the center, at its distance. -/
theorem Point.onCircle_angleFrom (x y u v : ℝ) :
    (⟨u, v⟩ : Point EReal).onCircle ((⟨x, y⟩ : Point EReal).distance ⟨u, v⟩)
      ((⟨x, y⟩ : Point EReal).angleFrom ⟨u, v⟩) = ⟨x, y⟩ := by
  obtain ⟨ρ, θ, hρ, hθ, hx, hy⟩ := exists_polar x y u v
  rw [hρ, hθ, onCircle_coe, ← hx, ← hy]

/-- Points in one direction from the center are as far apart as their distances from it. -/
theorem Point.distance_onCircle (x y u v r : ℝ) :
    ((⟨u, v⟩ : Point EReal).onCircle r ((⟨x, y⟩ : Point EReal).angleFrom ⟨u, v⟩)).distance ⟨x, y⟩ =
      Scalar.abs ((⟨x, y⟩ : Point EReal).distance ⟨u, v⟩ - (r : EReal)) := by
  obtain ⟨ρ, θ, hρ, hθ, hx, hy⟩ := exists_polar x y u v
  have hsq : (x - (u + r * Real.cos θ)) ^ 2 + (y - (v + r * Real.sin θ)) ^ 2 = (ρ - r) ^ 2 := by
    calc (x - (u + r * Real.cos θ)) ^ 2 + (y - (v + r * Real.sin θ)) ^ 2
        = (ρ - r) ^ 2 * (Real.sin θ ^ 2 + Real.cos θ ^ 2) := by rw [hx, hy]; ring
      _ = (ρ - r) ^ 2 := by rw [Real.sin_sq_add_cos_sq, mul_one]
  rw [hρ, hθ, onCircle_coe, distance_coe, hsq, Real.sqrt_sq_eq_abs, ← EReal.coe_sub]
  exact (Scalar.abs_coe (ρ - r)).symm

theorem tolerance_lt_five : (tolerance : EReal) < (5 : ℝ) := by
  show (((1 : ℕ) * 10 ^ (-9 : ℤ) : ℝ) : EReal) < _
  rw [EReal.coe_lt_coe_iff]
  norm_num

/-- Whole turns make no difference. -/
theorem Point.onCircle_add_turns (x y r θ : ℝ) (k : ℤ) :
    (⟨x, y⟩ : Point EReal).onCircle r (θ + k * (2 * Real.pi) : ℝ) =
      (⟨x, y⟩ : Point EReal).onCircle r θ := by
  rw [onCircle_coe, onCircle_coe, Real.cos_add_int_mul_two_pi, Real.sin_add_int_mul_two_pi]

namespace Arc

structure Fits (a : Arc EReal) : Prop where
  isFinite_start : a.start.isFinite = true
  isFinite_stop : a.stop.isFinite = true
  isFinite_center : a.center.isFinite = true
  radius_eq : a.radius = a.start.distance a.center
  startAngle_eq : a.startAngle = a.start.angleFrom a.center
  endAngle_eq : a.endAngle = a.stop.angleFrom a.center

variable {a : Arc EReal}

theorem pointAt_zero (h : a.Fits) : a.pointAt 0 = a.start := by
  rw [pointAt]
  split
  · rfl
  · obtain ⟨x, y, hstart⟩ := Point.isFinite_iff.1 h.isFinite_start
    obtain ⟨u, v, hcenter⟩ := Point.isFinite_iff.1 h.isFinite_center
    have hangle : a.startAngle + (0 : EReal) * a.sweep = a.startAngle := by
      rw [zero_mul, add_zero]
    calc a.center.onCircle a.radius (a.startAngle + (0 : EReal) * a.sweep)
        = a.center.onCircle a.radius a.startAngle := by rw [hangle]
      _ = a.start := by
        rw [h.radius_eq, h.startAngle_eq, hstart, hcenter]
        exact Point.onCircle_angleFrom x y u v

theorem exists_radius (h : a.Fits) : ∃ r : ℝ, a.radius = r := by
  obtain ⟨x, y, hstart⟩ := Point.isFinite_iff.1 h.isFinite_start
  obtain ⟨u, v, hcenter⟩ := Point.isFinite_iff.1 h.isFinite_center
  exact ⟨_, by rw [h.radius_eq, hstart, hcenter, Point.distance_coe]⟩

/-- The sweep of an arc leads to the direction of its stop, up to whole turns. -/
theorem exists_sweep (h : a.Fits) (hdegenerate : ¬a.isDegenerate = true) :
    ∃ (α β : ℝ) (k : ℤ), a.startAngle = α ∧ a.stop.angleFrom a.center = β ∧
      a.sweep = (β - α + k * (2 * Real.pi) : ℝ) := by
  obtain ⟨x, y, hstart⟩ := Point.isFinite_iff.1 h.isFinite_start
  obtain ⟨u, v, hstop⟩ := Point.isFinite_iff.1 h.isFinite_stop
  obtain ⟨cx, cy, hcenter⟩ := Point.isFinite_iff.1 h.isFinite_center
  obtain ⟨k, hk⟩ := exists_arcSweep_coe (Complex.arg ⟨x - cx, y - cy⟩)
    (Complex.arg ⟨u - cx, v - cy⟩) a.clockwise
  refine ⟨Complex.arg ⟨x - cx, y - cy⟩, Complex.arg ⟨u - cx, v - cy⟩, k, ?_, ?_, ?_⟩
  · rw [h.startAngle_eq, hstart, hcenter, Point.angleFrom_coe]
  · rw [hstop, hcenter, Point.angleFrom_coe]
  · rw [sweep, if_neg hdegenerate, h.startAngle_eq, h.endAngle_eq, hstart, hstop, hcenter,
      Point.angleFrom_coe, Point.angleFrom_coe, hk]

/-- An arc ends in the direction of its stop. -/
theorem pointAt_one (h : a.Fits) (hdegenerate : ¬a.isDegenerate = true) :
    a.pointAt 1 = a.center.onCircle a.radius (a.stop.angleFrom a.center) := by
  obtain ⟨u, v, hcenter⟩ := Point.isFinite_iff.1 h.isFinite_center
  obtain ⟨r, hr⟩ := exists_radius h
  obtain ⟨α, β, k, hα, hβ, hsweep⟩ := exists_sweep h hdegenerate
  have hangle : (α : EReal) + (1 : EReal) * (β - α + k * (2 * Real.pi) : ℝ) =
      (β + k * (2 * Real.pi) : ℝ) := by
    rw [one_mul, ← EReal.coe_add]
    congr 1
    ring
  rw [hβ, pointAt, if_neg hdegenerate, hα, hsweep, hcenter, hr]
  exact (congrArg _ hangle).trans (Point.onCircle_add_turns u v r β k)

theorem distance_pointAt_one (h : a.Fits) :
    (a.pointAt 1).distance a.stop = (Segment.arc a).endGap := by
  by_cases hdegenerate : a.isDegenerate = true
  · rw [pointAt, if_pos hdegenerate, Segment.endGap, if_pos hdegenerate]
  · obtain ⟨x, y, hstop⟩ := Point.isFinite_iff.1 h.isFinite_stop
    obtain ⟨u, v, hcenter⟩ := Point.isFinite_iff.1 h.isFinite_center
    obtain ⟨r, hr⟩ := exists_radius h
    rw [pointAt_one h hdegenerate, Segment.endGap, if_neg hdegenerate, hr, hstop, hcenter]
    exact Point.distance_onCircle x y u v r

theorem exists_sweep_coe (h : a.Fits) : ∃ s : ℝ, a.sweep = s := by
  by_cases hdegenerate : a.isDegenerate = true
  · exact ⟨0, if_pos hdegenerate⟩
  · obtain ⟨α, β, k, -, -, hsweep⟩ := exists_sweep h hdegenerate
    exact ⟨_, hsweep⟩

theorem radius_pos {r : ℝ} (hdegenerate : ¬a.isDegenerate = true) (hr : a.radius = r) : 0 < r := by
  have htolerance : (tolerance : EReal) < a.radius := by
    simpa [isDegenerate] using hdegenerate
  have hpos : (0 : ℝ) < (1 : ℕ) * 10 ^ (-9 : ℤ) := by norm_num
  rw [hr] at htolerance
  exact hpos.trans (EReal.coe_lt_coe_iff.1 htolerance)

/-- An arc without a length does not turn. -/
theorem pointAt_one_of_length_le (h : a.Fits) (hlength : (Segment.arc a).length ≤ 0) :
    a.pointAt 1 = a.pointAt 0 := by
  by_cases hdegenerate : a.isDegenerate = true
  · rw [pointAt, if_pos hdegenerate, pointAt, if_pos hdegenerate]
  obtain ⟨r, hr⟩ := exists_radius h
  obtain ⟨α, β, k, -, -, hsweep⟩ := exists_sweep h hdegenerate
  have hpos : 0 < r := radius_pos hdegenerate hr
  have hzero : a.sweep = 0 := by
    rw [Segment.length, hsweep, hr, ← EReal.coe_mul, Scalar.abs_coe] at hlength
    have hproduct := abs_nonpos_iff.1 (EReal.coe_nonpos.1 hlength)
    rw [hsweep, (mul_eq_zero.1 hproduct).resolve_right hpos.ne', EReal.coe_zero]
  rw [pointAt, if_neg hdegenerate, pointAt, if_neg hdegenerate, hzero]
  show a.center.onCircle a.radius (a.startAngle + (1 : EReal) * 0) =
    a.center.onCircle a.radius (a.startAngle + (0 : EReal) * 0)
  rw [mul_zero, mul_zero]

end Arc

namespace Segment

variable {segment : Segment EReal}

/-- The segment lies in the plane, and its radius and angles are those of its points. -/
def IsDrawn : Segment EReal → Prop
  | line p q => p.isFinite = true ∧ q.isFinite = true
  | arc a => a.Fits

theorem isDrawn_of_build? {code : Int32} {start stop : Point EReal} {i j : EReal}
    (hstart : start.isFinite = true) (hstop : stop.isFinite = true)
    (hi : Scalar.isFinite i = true) (hj : Scalar.isFinite j = true)
    (h : build? code start stop i j = some segment) : segment.IsDrawn := by
  have hcenter : (start.offset i j).isFinite = true := by
    obtain ⟨x, y, rfl⟩ := Point.isFinite_iff.1 hstart
    obtain ⟨i, rfl⟩ := Scalar.isFinite_iff_exists.1 hi
    obtain ⟨j, rfl⟩ := Scalar.isFinite_iff_exists.1 hj
    exact Point.isFinite_iff.2 ⟨x + i, y + j, rfl⟩
  rw [build?] at h
  split at h <;> cases h
  · exact ⟨hstart, hstop⟩
  · exact ⟨hstart, hstop⟩
  · exact ⟨hstart, hstop, hcenter, rfl, rfl, rfl⟩
  · exact ⟨hstart, hstop, hcenter, rfl, rfl, rfl⟩

theorem pointAt_zero (h : segment.IsDrawn) : segment.pointAt 0 = segment.start := by
  cases segment with
  | line p q =>
    show Point.mk ((1 - 0 : EReal) * p.x + 0 * q.x) ((1 - 0 : EReal) * p.y + 0 * q.y) = p
    rw [sub_zero, one_mul, one_mul, zero_mul, zero_mul, add_zero, add_zero]
  | arc a => exact Arc.pointAt_zero h

theorem pointAt_one_line (p q : Point EReal) : (line p q).pointAt 1 = q := by
  have hzero : (1 : EReal) - 1 = 0 := EReal.sub_self (by decide) (by decide)
  show Point.mk ((1 - 1 : EReal) * p.x + 1 * q.x) ((1 - 1 : EReal) * p.y + 1 * q.y) = q
  rw [hzero, one_mul, one_mul, zero_mul, zero_mul, zero_add, zero_add]

theorem distance_pointAt_one (h : segment.IsDrawn) :
    (segment.pointAt 1).distance segment.stop = segment.endGap := by
  cases segment with
  | line p q =>
    obtain ⟨x, y, rfl⟩ := Point.isFinite_iff.1 h.2
    rw [pointAt_one_line]
    show (⟨x, y⟩ : Point EReal).distance ⟨x, y⟩ = ((0 : ℝ) : EReal)
    rw [Point.distance_coe, sub_self, sub_self, zero_pow two_ne_zero, add_zero, Real.sqrt_zero]
  | arc a => exact Arc.distance_pointAt_one h

/-- A segment without a length goes nowhere. -/
theorem pointAt_one_of_length_le (h : segment.IsDrawn) (hlength : segment.length ≤ 0) :
    segment.pointAt 1 = segment.pointAt 0 := by
  cases segment with
  | line p q =>
    rw [pointAt_zero h, pointAt_one_line]
    obtain ⟨x, y, rfl⟩ := Point.isFinite_iff.1 h.1
    obtain ⟨u, v, rfl⟩ := Point.isFinite_iff.1 h.2
    rw [length, Point.distance_coe] at hlength
    have hsq := Real.sqrt_eq_zero'.1 (le_antisymm (EReal.coe_nonpos.1 hlength) (Real.sqrt_nonneg _))
    have hx : u = x := by nlinarith [sq_nonneg (u - x), sq_nonneg (v - y)]
    have hy : v = y := by nlinarith [sq_nonneg (u - x), sq_nonneg (v - y)]
    rw [start, hx, hy]
  | arc a => exact Arc.pointAt_one_of_length_le h hlength

theorem isFinite_length (h : segment.IsDrawn) : Scalar.isFinite segment.length = true := by
  cases segment with
  | line p q =>
    obtain ⟨x, y, rfl⟩ := Point.isFinite_iff.1 h.1
    obtain ⟨u, v, rfl⟩ := Point.isFinite_iff.1 h.2
    rw [length, Point.distance_coe]
    exact Scalar.isFinite_coe _
  | arc a =>
    obtain ⟨s, hs⟩ := Arc.exists_sweep_coe h
    obtain ⟨r, hr⟩ := Arc.exists_radius h
    rw [length, hs, hr, ← EReal.coe_mul, Scalar.abs_coe]
    exact Scalar.isFinite_coe _

end Segment

end SheetCut
