import SheetCut.Proofs.Binary64.Arithmetic
import SheetCut.Proofs.Geometry.Circle
import SheetCut.Proofs.Playback.Rows

/-!
# The ends of a sampled segment

Sampling always gives the point at parameter 0, and the point at parameter 1 if the segment is
divided into steps at all. How far these points lie from the ends of the segment is a question of
geometry, and in binary64 one of rounding.
-/

namespace SheetCut

/-- What sampling needs of a scalar: that the parameter runs from 0 to 1, and that there are steps
for a positive number of them. -/
class ParameterScalar (α : Type) [Scalar α] : Prop where
  zero_div_natCast : ∀ n : Nat, 0 < n → n ≤ maxSteps → ((0 : Nat) : α) / (n : α) = 0
  natCast_div_self : ∀ n : Nat, 0 < n → n ≤ maxSteps → (n : α) / (n : α) = 1
  ceil?_pos_iff : ∀ (x : α) (n : Nat), Scalar.ceil? x = some n → (0 < n ↔ 0 < x)

instance [Trigonometry] : ParameterScalar EReal where
  zero_div_natCast := by
    intro n _ _
    show ((0 : Nat) : EReal) / (n : EReal) = 0
    rw [Nat.cast_zero, EReal.zero_div]
  natCast_div_self := by
    intro n hpos _
    show (n : EReal) / (n : EReal) = 1
    exact EReal.div_self (EReal.natCast_ne_bot n) (EReal.natCast_ne_top n)
      (Nat.cast_ne_zero.2 hpos.ne')
  ceil?_pos_iff := by
    intro x n h
    by_cases hx : x ≠ ⊤ ∧ x ≠ ⊥
    · obtain ⟨r, rfl⟩ := Scalar.isFinite_iff_exists.1 (Scalar.isFinite_iff.2 hx)
      have hceil : Scalar.ceil? (r : EReal) = some ⌈r⌉₊ := if_pos hx
      rw [hceil] at h
      cases h
      exact Nat.ceil_pos.trans EReal.coe_pos.symm
    · have hceil : Scalar.ceil? x = none := if_neg hx
      rw [hceil] at h
      cases h

instance : ParameterScalar Float where
  zero_div_natCast := by
    intro n hpos hle
    obtain ⟨m, e, hm, h⟩ := Binary64.unpack_ofNat hpos (hle.trans_lt (by decide))
    exact Binary64.zero_div_float h
  natCast_div_self := by
    intro n hpos hle
    obtain ⟨m, e, hm, h⟩ := Binary64.unpack_ofNat hpos (hle.trans_lt (by decide))
    exact Binary64.div_self_float h
  ceil?_pos_iff := fun _ _ => Binary64.ceil?_pos_iff

def Point.Meets {α : Type} [Scalar α] (p q : Point α) : Prop :=
  (p.x == q.x) = true ∧ (p.y == q.y) = true

/-- Some motion code and finite arguments give the segment. -/
def Segment.IsBuilt {α : Type} [Scalar α] (segment : Segment α) : Prop :=
  ∃ code start stop i j, Point.isFinite start = true ∧ Point.isFinite stop = true ∧
    Scalar.isFinite i = true ∧ Scalar.isFinite j = true ∧
    Segment.build? code start stop i j = some segment

theorem Segment.IsBuilt.isFinite {α : Type} [Scalar α] {segment : Segment α} (h : segment.IsBuilt) :
    segment.start.isFinite = true ∧ segment.stop.isFinite = true := by
  obtain ⟨code, start, stop, i, j, hstart, hstop, -, -, hbuild⟩ := h
  obtain ⟨rfl, rfl⟩ := Segment.build?_ends hbuild
  exact ⟨hstart, hstop⟩

namespace Sampler

variable {α : Type} [Scalar α]

/-- The segment is cut into one step or more. Otherwise only its start is sampled. -/
def Divides (s : Sampler α) (segment : Segment α) : Prop :=
  Scalar.isFinite segment.length = true ∧ ¬segment.length ≤ 0 ∧ 0 < segment.length / s.step

variable {s : Sampler α} {segment : Segment α} {label : PathLabel} {points : List (PathPoint α)}

theorem stepsFor_le {n : Nat} (h : s.stepsFor segment = .ok n) : n ≤ maxSteps := by
  rw [stepsFor] at h
  split at h
  · cases h
    exact Nat.zero_le _
  · split at h
    · split at h
      · next hle => cases h; exact hle
      · cases h
    · cases h

theorem stepsFor_pos_iff [ParameterScalar α] {n : Nat} (h : s.stepsFor segment = .ok n) :
    0 < n ↔ s.Divides segment := by
  rw [stepsFor] at h
  by_cases hlength : (!Scalar.isFinite segment.length || decide (segment.length ≤ 0)) = true
  · rw [if_pos hlength] at h
    cases h
    refine iff_of_false (lt_irrefl 0) fun hdivides => ?_
    simp [hdivides.1, hdivides.2.1] at hlength
  · rw [if_neg hlength] at h
    have hfinite : Scalar.isFinite segment.length = true ∧ ¬segment.length ≤ 0 := by
      simpa using hlength
    split at h
    · next k hceil =>
      split at h
      · cases h
        rw [ParameterScalar.ceil?_pos_iff _ _ hceil, Divides]
        exact ⟨fun hpos => ⟨hfinite.1, hfinite.2, hpos⟩, fun hdivides => hdivides.2.2⟩
      · cases h
    · cases h

/-- One segment is sampled at the ends of its steps. -/
theorem exists_stepsFor (h : s.sample [segment] label = .ok points) : ∃ n,
    s.stepsFor segment = .ok n ∧
      points = (List.range (n + 1)).map (pointOf segment 0 label n) := by
  rw [sample, List.map_singleton, sampleLabelled, sampleSegment] at h
  cases hsteps : s.stepsFor segment with
  | error e =>
    rw [hsteps] at h
    cases h
  | ok n =>
    rw [hsteps] at h
    cases h
    exact ⟨n, rfl, List.append_nil _⟩

theorem progress_zero [ParameterScalar α] {n : Nat} (hn : n ≤ maxSteps) :
    (progress n 0 : α) = 0 := by
  rw [progress]
  split
  · next hpos => exact ParameterScalar.zero_div_natCast n hpos hn
  · rfl

theorem progress_self [ParameterScalar α] {n : Nat} (hpos : 0 < n) (hn : n ≤ maxSteps) :
    (progress n n : α) = 1 := by
  rw [progress, if_pos hpos]
  exact ParameterScalar.natCast_div_self n hpos hn

/-- The first point is that at parameter 0, the last one that at 1 if there are any steps. -/
theorem exists_ends [ParameterScalar α] (h : s.sample [segment] label = .ok points) :
    ∃ first last, points.head? = some first ∧ points.getLast? = some last ∧
      first.position = segment.pointAt 0 ∧
      (s.Divides segment → last.position = segment.pointAt 1) ∧
      (¬s.Divides segment → last.position = segment.pointAt 0) := by
  obtain ⟨n, hsteps, rfl⟩ := exists_stepsFor h
  have hn := stepsFor_le hsteps
  have hdivides := stepsFor_pos_iff hsteps
  refine ⟨pointOf segment 0 label n 0, pointOf segment 0 label n n, ?_, ?_, ?_, ?_, ?_⟩
  · rw [List.range_succ_eq_map, List.map_cons, List.head?_cons]
  · rw [List.range_succ, List.map_append, List.map_singleton, List.getLast?_concat]
  · rw [pointOf, progress_zero hn]
  · intro h
    rw [pointOf, progress_self (hdivides.2 h) hn]
  · intro h
    have hzero : n = 0 := Nat.eq_zero_of_not_pos fun hpos => h (hdivides.1 hpos)
    rw [hzero, pointOf, progress_zero (Nat.zero_le _)]

end Sampler

section Exact

attribute [local instance] Trigonometry.real

theorem Segment.IsBuilt.isDrawn {segment : Segment EReal} (h : segment.IsBuilt) :
    segment.IsDrawn := by
  obtain ⟨code, start, stop, i, j, hstart, hstop, hi, hj, hbuild⟩ := h
  exact Segment.isDrawn_of_build? hstart hstop hi hj hbuild

namespace Sampler

variable {s : Sampler EReal} {segment : Segment EReal} {label : PathLabel}
  {points : List (PathPoint EReal)}

theorem length_le_of_not_divides (hdrawn : segment.IsDrawn) (h : ¬s.Divides segment) :
    segment.length ≤ 0 := by
  by_contra hlength
  have hstep : s.step ≠ ⊤ := (Scalar.isFinite_iff.1 s.isFinite_step).1
  exact h ⟨Segment.isFinite_length hdrawn, hlength,
    EReal.div_pos (not_le.1 hlength) s.zero_lt_step hstep⟩

/-- Without rounding the last point is that at parameter 1 in any case. -/
theorem exists_exact_ends (hdrawn : segment.IsDrawn) (h : s.sample [segment] label = .ok points) :
    ∃ first last, points.head? = some first ∧ points.getLast? = some last ∧
      first.position = segment.start ∧ last.position = segment.pointAt 1 := by
  obtain ⟨first, last, hfirst, hlast, hzero, hdivides, hundivided⟩ := exists_ends h
  refine ⟨first, last, hfirst, hlast, hzero.trans (Segment.pointAt_zero hdrawn), ?_⟩
  by_cases hd : s.Divides segment
  · exact hdivides hd
  · rw [hundivided hd,
      Segment.pointAt_one_of_length_le hdrawn (length_le_of_not_divides hdrawn hd)]

/-- Sampling succeeds where the quotient of length and step is within the limit. -/
theorem exists_sample_of_length {l t : ℝ} (hl : segment.length = l) (ht : s.step = t)
    (hn : ⌈l / t⌉₊ ≤ maxSteps) : ∃ points, s.sample [segment] label = .ok points := by
  have hceil : Scalar.ceil? (segment.length / s.step) = some ⌈l / t⌉₊ := by
    rw [hl, ht, ← EReal.coe_div]
    exact if_pos ⟨EReal.coe_ne_top _, EReal.coe_ne_bot _⟩
  have hsteps : ∃ n, s.stepsFor segment = .ok n := by
    rw [stepsFor]
    split
    · exact ⟨0, rfl⟩
    · rw [hceil]
      exact ⟨_, if_pos hn⟩
  obtain ⟨n, hsteps⟩ := hsteps
  rw [sample, List.map_singleton, sampleLabelled, sampleSegment, hsteps]
  exact ⟨_, rfl⟩

end Sampler

def cutLabel : PathLabel := .ofType 0 0 .cutting

/-- A quarter of the circle of radius 5 around (5, 0), drawn to a stop that is only 3 away. -/
noncomputable def offCircle : Segment EReal :=
  .arcAround ⟨(0 : ℝ), (0 : ℝ)⟩ ⟨(5 : ℝ), (3 : ℝ)⟩ ⟨(5 : ℝ), (0 : ℝ)⟩ true

noncomputable def longSteps : Sampler EReal where
  step := (100 : ℝ)
  isFinite_step := Scalar.isFinite_coe 100
  zero_lt_step := EReal.coe_pos.2 (by norm_num)

theorem isBuilt_offCircle : offCircle.IsBuilt := by
  have hcenter : Point.offset (⟨(0 : ℝ), (0 : ℝ)⟩ : Point EReal) (5 : ℝ) (0 : ℝ) =
      ⟨(5 : ℝ), (0 : ℝ)⟩ := by
    show Point.mk ((0 : ℝ) + (5 : ℝ) : EReal) ((0 : ℝ) + (0 : ℝ) : EReal) = _
    rw [← EReal.coe_add, ← EReal.coe_add, zero_add, zero_add]
  refine ⟨2, ⟨(0 : ℝ), (0 : ℝ)⟩, ⟨(5 : ℝ), (3 : ℝ)⟩, (5 : ℝ), (0 : ℝ),
    Point.isFinite_iff.2 ⟨0, 0, rfl⟩, Point.isFinite_iff.2 ⟨5, 3, rfl⟩, Scalar.isFinite_coe 5,
    Scalar.isFinite_coe 0, ?_⟩
  show some (Segment.arcAround _ _ (Point.offset _ _ _) true) = some offCircle
  rw [hcenter, offCircle]

theorem distance_offCircle_center :
    (⟨(0 : ℝ), (0 : ℝ)⟩ : Point EReal).distance ⟨(5 : ℝ), (0 : ℝ)⟩ = (5 : ℝ) ∧
      (⟨(5 : ℝ), (3 : ℝ)⟩ : Point EReal).distance ⟨(5 : ℝ), (0 : ℝ)⟩ = (3 : ℝ) := by
  have hradius : (5 - 0 : ℝ) ^ 2 + (0 - 0) ^ 2 = 5 ^ 2 := by norm_num
  have hstop : (5 - 5 : ℝ) ^ 2 + (0 - 3) ^ 2 = 3 ^ 2 := by norm_num
  constructor
  · rw [Point.distance_coe, hradius, Real.sqrt_sq (by norm_num)]
  · rw [Point.distance_coe, hstop, Real.sqrt_sq (by norm_num)]

theorem endGap_offCircle : offCircle.endGap = (2 : ℝ) := by
  obtain ⟨hradius, hstop⟩ := distance_offCircle_center
  rw [offCircle, Segment.arcAround, hradius, Segment.endGap,
    if_neg (by simp [Arc.isDegenerate, tolerance_lt_five])]
  show Scalar.abs (Point.distance _ _ - ((5 : ℝ) : EReal)) = _
  rw [hstop, ← EReal.coe_sub, Scalar.abs_coe]
  norm_num

theorem length_offCircle : offCircle.length = (5 * Real.pi / 2 : ℝ) := by
  have hstart : Complex.arg ⟨0 - 5, 0 - 0⟩ = Real.pi := by
    have hreal : (⟨0 - 5, 0 - 0⟩ : ℂ) = ((-5 : ℝ) : ℂ) := Complex.ext (by norm_num) (by norm_num)
    rw [hreal, Complex.arg_ofReal_of_neg (by norm_num)]
  have hstop : Complex.arg ⟨5 - 5, 3 - 0⟩ = Real.pi / 2 := by
    rw [Complex.arg_of_im_pos (by norm_num), sub_self, zero_div, Real.arccos_zero]
  have hspan : ¬(0 : EReal) < (Real.pi / 2 - Real.pi : ℝ) := by
    rw [EReal.coe_pos]
    linarith [Real.pi_pos]
  have hsweep : arcSweep (Real.pi : EReal) (Real.pi / 2 : ℝ) true = (Real.pi / 2 - Real.pi : ℝ) :=
    if_neg hspan
  rw [offCircle, Segment.arcAround, distance_offCircle_center.1, Segment.length, Arc.sweep,
    if_neg (by simp [Arc.isDegenerate, tolerance_lt_five]), Point.angleFrom_coe,
    Point.angleFrom_coe, hstart, hstop, hsweep, ← EReal.coe_mul, Scalar.abs_coe, abs_of_neg (by linarith [Real.pi_pos])]
  congr 1
  ring

theorem exists_sample_offCircle : ∃ points, longSteps.sample [offCircle] cutLabel = .ok points := by
  have hn : ⌈5 * Real.pi / 2 / 100⌉₊ ≤ maxSteps := by
    rw [Nat.ceil_le]
    have hmax : ((maxSteps : Nat) : ℝ) = 1000000 := by norm_num [maxSteps]
    linarith [Real.pi_le_four]
  exact Sampler.exists_sample_of_length length_offCircle rfl hn

end Exact

section Lines

variable {p q : Point Float}

theorem Point.isFinite_coordinates (h : p.isFinite = true) :
    p.x.isFinite = true ∧ p.y.isFinite = true := Bool.and_eq_true_iff.1 h

theorem Segment.meets_pointAt_zero (hp : p.isFinite = true) (hq : q.isFinite = true) :
    p.Meets ((line p q).pointAt 0) := by
  have hcoordinate : ∀ x y : Float, x.isFinite = true → y.isFinite = true →
      (x == (1 - 0) * x + 0 * y) = true := by
    intro x y hx hy
    have hone : (1 : Float) - 0 = 1 := by decide
    obtain ⟨s, hs⟩ := Binary64.unpack_zero_mul hy
    rw [hone, Binary64.one_mul_float]
    exact Binary64.beq_add_zero hx hs
  obtain ⟨hpx, hpy⟩ := Point.isFinite_coordinates hp
  obtain ⟨hqx, hqy⟩ := Point.isFinite_coordinates hq
  exact ⟨hcoordinate p.x q.x hpx hqx, hcoordinate p.y q.y hpy hqy⟩

theorem Segment.meets_pointAt_one (hp : p.isFinite = true) (hq : q.isFinite = true) :
    q.Meets ((line p q).pointAt 1) := by
  have hcoordinate : ∀ x y : Float, x.isFinite = true → y.isFinite = true →
      (y == (1 - 1) * x + 1 * y) = true := by
    intro x y hx hy
    have hzero : (1 : Float) - 1 = 0 := by decide
    obtain ⟨s, hs⟩ := Binary64.unpack_zero_mul hx
    rw [hzero, Binary64.one_mul_float]
    exact Binary64.beq_zero_add hy hs
  obtain ⟨hpx, hpy⟩ := Point.isFinite_coordinates hp
  obtain ⟨hqx, hqy⟩ := Point.isFinite_coordinates hq
  exact ⟨hcoordinate p.x q.x hpx hqx, hcoordinate p.y q.y hpy hqy⟩

theorem Point.meets_congr_right {r : Point Float} (h : p.Meets q) : r.Meets q ↔ r.Meets p := by
  rw [Point.Meets, Point.Meets, BEq.congr_right h.1, BEq.congr_right h.2]

/-- A line that is not divided ends where it starts. -/
theorem Sampler.exists_line_ends {s : Sampler Float} {label : PathLabel}
    {points : List (PathPoint Float)} (hp : p.isFinite = true) (hq : q.isFinite = true)
    (h : s.sample [.line p q] label = .ok points) :
    ∃ first last, points.head? = some first ∧ points.getLast? = some last ∧
      p.Meets first.position ∧
      (q.Meets last.position ↔ q.Meets p ∨ s.Divides (.line p q)) := by
  obtain ⟨first, last, hfirst, hlast, hzero, hdivides, hundivided⟩ := exists_ends h
  have hstart : p.Meets first.position := hzero ▸ Segment.meets_pointAt_zero hp hq
  refine ⟨first, last, hfirst, hlast, hstart, ?_⟩
  by_cases hd : s.Divides (.line p q)
  · rw [hdivides hd]
    exact iff_of_true (Segment.meets_pointAt_one hp hq) (.inr hd)
  · rw [hundivided hd, Point.meets_congr_right (Segment.meets_pointAt_zero hp hq),
      or_iff_left hd]

end Lines

def diagonal : Segment Float := .line ⟨0, 0⟩ ⟨3, 4⟩

def wideSteps : Sampler Float where
  step := 2
  isFinite_step := by decide
  zero_lt_step := by decide

section Ends

attribute [local instance] Trigonometry.real

/-- The points of a sampled segment begin at its start, and in exact arithmetic they end at a
distance of `endGap` from its stop: at the stop for a line, and for an arc by as much off as the
stop lies off the circle. From there it is as far to the first point of a segment that goes on from
the stop. In binary64, a line also has to be divided into steps, unless it ends where it starts, and
an arc without a direction is not left at all. -/
theorem sample_ends (label : PathLabel) :
    (∀ (s : Sampler EReal) (segment : Segment EReal) (points : List (PathPoint EReal)),
      segment.IsBuilt → s.sample [segment] label = .ok points →
      ∃ first last, points.head? = some first ∧ points.getLast? = some last ∧
        first.position = segment.start ∧
        (segment.isArc = false → last.position = segment.stop) ∧
        last.position.distance segment.stop = segment.endGap ∧
        ∀ next others, next.IsBuilt → next.start = segment.stop →
          s.sample [next] label = .ok others → ∃ joint, others.head? = some joint ∧
            last.position.distance joint.position = segment.endGap) ∧
    ∀ (s : Sampler Float) (segment : Segment Float) (points : List (PathPoint Float)),
      segment.IsBuilt → s.sample [segment] label = .ok points →
      ∃ first last, points.head? = some first ∧ points.getLast? = some last ∧
        (segment.isArc = false → segment.start.Meets first.position ∧
          (segment.stop.Meets last.position ↔
            segment.stop.Meets segment.start ∨ s.Divides segment)) ∧
        ∀ a, segment = .arc a → a.isDegenerate = true →
          first.position = a.start ∧ last.position = a.start := by
  constructor
  · intro s segment points hbuilt h
    obtain ⟨first, last, hfirst, hlast, hstart, hstop⟩ :=
      Sampler.exists_exact_ends hbuilt.isDrawn h
    have hgap : last.position.distance segment.stop = segment.endGap := by
      rw [hstop, Segment.distance_pointAt_one hbuilt.isDrawn]
    refine ⟨first, last, hfirst, hlast, hstart, fun hline => ?_, hgap, ?_⟩
    · cases segment with
      | line p q => rw [hstop, Segment.pointAt_one_line, Segment.stop]
      | arc a => cases hline
    · intro next others hnext hjoint hothers
      obtain ⟨joint, -, hhead, -, hposition, -⟩ :=
        Sampler.exists_exact_ends hnext.isDrawn hothers
      exact ⟨joint, hhead, by rw [hposition, hjoint, hgap]⟩
  · intro s segment points hbuilt h
    cases segment with
    | line p q =>
      have hfinite : p.isFinite = true ∧ q.isFinite = true := hbuilt.isFinite
      obtain ⟨first, last, hfirst, hlast, hends⟩ :=
        Sampler.exists_line_ends hfinite.1 hfinite.2 h
      exact ⟨first, last, hfirst, hlast, fun _ => hends, fun a ha => by cases ha⟩
    | arc a =>
      obtain ⟨first, last, hfirst, hlast, hzero, hdivides, hundivided⟩ := Sampler.exists_ends h
      refine ⟨first, last, hfirst, hlast, fun hline => (by cases hline), fun a' ha hstill => ?_⟩
      cases ha
      have hpoint : ∀ t, (Segment.arc a).pointAt t = a.start := fun t => if_pos hstill
      refine ⟨hzero.trans (hpoint 0), ?_⟩
      by_cases hd : s.Divides (.arc a)
      · exact (hdivides hd).trans (hpoint 1)
      · exact (hundivided hd).trans (hpoint 0)

/-- The arc ends 2 mm off its stop, the line at its stop. -/
theorem sample_ends_offCircle_diagonal :
    (∃ points last, longSteps.sample [offCircle] cutLabel = .ok points ∧
      points.getLast? = some last ∧ last.position.distance offCircle.stop = (2 : ℝ)) ∧
    ∃ points last, wideSteps.sample [diagonal] cutLabel = .ok points ∧
      points.getLast? = some last ∧ diagonal.stop.Meets last.position := by
  constructor
  · obtain ⟨points, hpoints⟩ := exists_sample_offCircle
    obtain ⟨-, last, -, hlast, -, -, hgap, -⟩ :=
      (sample_ends cutLabel).1 longSteps offCircle points isBuilt_offCircle hpoints
    exact ⟨points, last, hpoints, hlast, hgap.trans endGap_offCircle⟩
  · have hbuilt : diagonal.IsBuilt :=
      ⟨1, ⟨0, 0⟩, ⟨3, 4⟩, 0, 0, by decide, by decide, by decide, by decide, rfl⟩
    have hdivides : wideSteps.Divides diagonal := by
      refine ⟨?_, ?_, ?_⟩ <;> decide +kernel
    obtain ⟨points, hpoints⟩ : ∃ points, wideSteps.sample [diagonal] cutLabel = .ok points := by
      have hok : (wideSteps.sample [diagonal] cutLabel).isOk = true := by decide +kernel
      cases h : wideSteps.sample [diagonal] cutLabel with
      | error e =>
        rw [h] at hok
        cases hok
      | ok points => exact ⟨points, rfl⟩
    obtain ⟨_, last, _, hlast, hline, _⟩ :=
      (sample_ends cutLabel).2 wideSteps diagonal points hbuilt hpoints
    exact ⟨points, last, hpoints, hlast, (hline rfl).2.2 (.inr hdivides)⟩

/-- The last point lies on the circle, and the stop of the arc is 2 mm away from it. -/
theorem offCircle_stop_missed : ∃ points last,
    longSteps.sample [offCircle] cutLabel = .ok points ∧ points.getLast? = some last ∧
      last.position.distance offCircle.stop = (2 : ℝ) := by
  obtain ⟨points, hpoints⟩ := exists_sample_offCircle
  obtain ⟨-, last, -, hlast, -, hstop⟩ :=
    Sampler.exists_exact_ends isBuilt_offCircle.isDrawn hpoints
  refine ⟨points, last, hpoints, hlast, ?_⟩
  rw [hstop, Segment.distance_pointAt_one isBuilt_offCircle.isDrawn, endGap_offCircle]

end Ends

end SheetCut
