import SheetCut.Proofs.Geometry.Circle
import SheetCut.Proofs.Playback.Rows

/-!
# Turns

The sweep between two angles is the turn in the given direction by less than once around, for all
angles from `-π` to `π` but the two ends of that range. These name one direction, and in one of the
two orders the sweep between them goes once around instead of standing still.
-/

namespace SheetCut

open Real

/-- Less than once around, in the given direction or not at all. -/
def IsTurn (clockwise : Bool) (x : ℝ) : Prop :=
  if clockwise then -(π + π) < x ∧ x ≤ 0 else 0 ≤ x ∧ x < π + π

def SameDirection (x y : ℝ) : Prop := ∃ k : ℤ, x = y + k * (π + π)

/-- The angles are the two ends of their range, in the order in which all other angles lie between
them in the given direction. -/
def LiesAcross (clockwise : Bool) (a b : ℝ) : Prop :=
  if clockwise then a = π ∧ b = -π else a = -π ∧ b = π

noncomputable def wholeTurn (clockwise : Bool) : ℝ := if clockwise then -(π + π) else π + π

section Turns

variable {a b s x y : ℝ} {clockwise : Bool}

theorem SameDirection.trans {z : ℝ} (hxy : SameDirection x y) (hyz : SameDirection y z) :
    SameDirection x z := by
  obtain ⟨k, rfl⟩ := hxy
  obtain ⟨n, rfl⟩ := hyz
  exact ⟨n + k, by push_cast; ring⟩

theorem SameDirection.symm (h : SameDirection x y) : SameDirection y x := by
  obtain ⟨k, rfl⟩ := h
  exact ⟨-k, by push_cast; ring⟩

theorem isTurn_zero (clockwise : Bool) : IsTurn clockwise 0 := by
  cases clockwise <;> simp [IsTurn, pi_pos]

/-- Of the numbers in one direction only one is a turn. -/
theorem IsTurn.eq_of_sameDirection (hx : IsTurn clockwise x) (hy : IsTurn clockwise y)
    (h : SameDirection x y) : x = y := by
  obtain ⟨k, rfl⟩ := h
  have hpos : 0 < π + π := add_pos pi_pos pi_pos
  have hbounds : -(π + π) < k * (π + π) ∧ k * (π + π) < π + π := by
    cases clockwise <;> simp only [IsTurn, if_true, Bool.false_eq_true, if_false] at hx hy <;>
      constructor <;> linarith
  have hlow : (-1 : ℝ) < k := by nlinarith [hbounds.1]
  have hhigh : (k : ℝ) < 1 := by nlinarith [hbounds.2]
  have hk : k = 0 := by
    have hlow' : -1 < k := by exact_mod_cast hlow
    have hhigh' : k < 1 := by exact_mod_cast hhigh
    omega
  rw [hk, Int.cast_zero, zero_mul, add_zero]

/-- A part of a turn is a turn. -/
theorem IsTurn.mul (hx : IsTurn clockwise x) {t : ℝ} (ht : 0 ≤ t) (ht' : t ≤ 1) :
    IsTurn clockwise (t * x) := by
  cases clockwise <;> simp only [IsTurn, if_true, Bool.false_eq_true, if_false] at hx ⊢ <;>
    constructor <;> nlinarith [pi_pos]

theorem not_isTurn_wholeTurn (clockwise : Bool) : ¬IsTurn clockwise (wholeTurn clockwise) := by
  cases clockwise <;> simp [IsTurn, wholeTurn]

theorem wholeTurn_ne_zero (clockwise : Bool) : wholeTurn clockwise ≠ 0 := by
  cases clockwise <;> simp [wholeTurn, pi_ne_zero]

/-- The ends of the range of angles are a whole turn apart. -/
theorem sub_of_liesAcross (h : LiesAcross clockwise a b) : b - a = wholeTurn clockwise := by
  cases clockwise <;> simp only [LiesAcross, if_true, Bool.false_eq_true, if_false] at h <;>
    obtain ⟨rfl, rfl⟩ := h <;> simp only [wholeTurn, if_true, Bool.false_eq_true, if_false] <;> ring

end Turns

section Sweep

variable [Trigonometry] {a b : ℝ}

/-- For angles in their range the sweep is a turn, unless they are the two ends in the wrong
order. -/
theorem exists_sweep_between (ha : a ∈ Set.Icc (-π) π) (hb : b ∈ Set.Icc (-π) π)
    (clockwise : Bool) : ∃ s : ℝ, arcSweep (a : EReal) b clockwise = s ∧ SameDirection s (b - a) ∧
      (¬LiesAcross clockwise a b → IsTurn clockwise s) ∧
      (LiesAcross clockwise a b → s = wholeTurn clockwise) := by
  obtain ⟨hal, hah⟩ := ha
  obtain ⟨hbl, hbh⟩ := hb
  have hstay : SameDirection (b - a) (b - a) := ⟨0, by simp⟩
  cases clockwise with
  | true =>
    by_cases hspan : 0 < b - a
    · refine ⟨b - a - (π + π), if_pos (EReal.coe_pos.2 hspan), ⟨-1, by push_cast; ring⟩, ?_, ?_⟩
      · intro _
        constructor <;> linarith
      · rintro ⟨rfl, rfl⟩
        linarith [pi_pos]
    · refine ⟨b - a, if_neg fun h => hspan (EReal.coe_pos.1 h), hstay, ?_, sub_of_liesAcross⟩
      intro hacross
      refine ⟨lt_of_not_ge fun hle => hacross ⟨?_, ?_⟩, not_lt.1 hspan⟩ <;> linarith
  | false =>
    by_cases hspan : b - a < 0
    · refine ⟨b - a + (π + π), if_pos (EReal.coe_neg'.2 hspan), ⟨1, by push_cast; ring⟩, ?_, ?_⟩
      · intro _
        constructor <;> linarith
      · rintro ⟨rfl, rfl⟩
        linarith [pi_pos]
    · refine ⟨b - a, if_neg fun h => hspan (EReal.coe_neg'.1 h), hstay, ?_, sub_of_liesAcross⟩
      intro hacross
      refine ⟨not_lt.1 hspan, lt_of_not_ge fun hle => hacross ⟨?_, ?_⟩⟩ <;> linarith

theorem arcSweep_eq_iff (ha : a ∈ Set.Icc (-π) π) (hb : b ∈ Set.Icc (-π) π) {clockwise : Bool}
    (hacross : ¬LiesAcross clockwise a b) {r : ℝ} : arcSweep (a : EReal) b clockwise = r ↔
      IsTurn clockwise r ∧ SameDirection r (b - a) := by
  obtain ⟨s, hs, hsame, hturn, -⟩ := exists_sweep_between ha hb clockwise
  rw [hs, EReal.coe_eq_coe_iff]
  constructor
  · rintro rfl
    exact ⟨hturn hacross, hsame⟩
  · rintro ⟨hr, hdir⟩
    exact (hturn hacross).eq_of_sameDirection hr (hsame.trans hdir.symm)

theorem arcSweep_of_liesAcross (ha : a ∈ Set.Icc (-π) π) (hb : b ∈ Set.Icc (-π) π)
    {clockwise : Bool} (hacross : LiesAcross clockwise a b) :
    arcSweep (a : EReal) b clockwise = wholeTurn clockwise := by
  obtain ⟨s, hs, -, -, hwhole⟩ := exists_sweep_between ha hb clockwise
  rw [hs, hwhole hacross]

end Sweep

/-- A segment without a length is sampled at its start only. -/
theorem Sampler.sample_of_length_le {α : Type} [Scalar α] (s : Sampler α) {segment : Segment α}
    (h : segment.length ≤ 0) (label : PathLabel) :
    s.sample [segment] label = .ok [pointOf segment 0 label 0 0] := by
  have hsteps : s.stepsFor segment = .ok 0 := by
    rw [stepsFor]
    exact if_pos (by simp [h])
  rw [sample, List.map_singleton, sampleLabelled, sampleSegment, hsteps]
  rfl

namespace Arc

def angleAt {α : Type} [Scalar α] (a : Arc α) (t : α) : α := a.startAngle + t * a.sweep

variable [Trigonometry] {arc : Arc EReal}

theorem length_of_sweep_eq_zero (h : arc.sweep = 0) : (Segment.arc arc).length = 0 := by
  show max (arc.sweep * arc.radius) (-(arc.sweep * arc.radius)) = 0
  rw [h, zero_mul, neg_zero, max_self]

/-- Between two parameters the direction changes by their part of the sweep. -/
theorem angleAt_coe {a s : ℝ} (ha : arc.startAngle = a) (hs : arc.sweep = s) (t : ℝ) :
    arc.angleAt t = (a + t * s : ℝ) := by
  rw [angleAt, ha, hs]
  rfl

variable {a b : ℝ}

theorem exists_sweep_isTurn (ha : a ∈ Set.Icc (-π) π) (hb : b ∈ Set.Icc (-π) π)
    (hstart : arc.startAngle = a) (hend : arc.endAngle = b)
    (hacross : ¬LiesAcross arc.clockwise a b) :
    ∃ s : ℝ, arc.sweep = s ∧ IsTurn arc.clockwise s := by
  rw [sweep, hstart, hend]
  split
  · exact ⟨0, rfl, isTurn_zero arc.clockwise⟩
  · obtain ⟨s, hs, -, hturn, -⟩ := exists_sweep_between ha hb arc.clockwise
    exact ⟨s, hs, hturn hacross⟩

/-- An arc with a sweep that is a turn turns the same way from any parameter to any later one. -/
theorem exists_angles_of_isTurn {s : ℝ} (hstart : arc.startAngle = a) (hs : arc.sweep = s)
    (hturn : IsTurn arc.clockwise s) : ∃ θ : ℝ → ℝ, (∀ t : ℝ, arc.angleAt t = θ t) ∧
      ∀ t u, 0 ≤ t → t ≤ u → u ≤ 1 → IsTurn arc.clockwise (θ u - θ t) := by
  refine ⟨fun t => a + t * s, angleAt_coe hstart hs, fun t u ht htu hu => ?_⟩
  have hpart : a + u * s - (a + t * s) = (u - t) * s := by ring
  rw [hpart]
  apply hturn.mul
  · exact sub_nonneg.2 htu
  · linarith

theorem sweep_eq_zero_iff (ha : a ∈ Set.Icc (-π) π) (hb : b ∈ Set.Icc (-π) π)
    (hstart : arc.startAngle = a) (hend : arc.endAngle = b) (hdir : SameDirection a b) :
    arc.sweep = 0 ↔ arc.isDegenerate = true ∨ ¬LiesAcross arc.clockwise a b := by
  rw [sweep, hstart, hend]
  split
  · next hdegenerate => exact iff_of_true rfl (.inl hdegenerate)
  · next hdegenerate =>
    rw [or_iff_right hdegenerate]
    constructor
    · intro hzero hacross
      rw [arcSweep_of_liesAcross ha hb hacross, EReal.coe_eq_zero] at hzero
      exact wholeTurn_ne_zero arc.clockwise hzero
    · intro hacross
      obtain ⟨k, rfl⟩ := hdir
      apply (arcSweep_eq_iff ha hb hacross).2
      exact ⟨isTurn_zero arc.clockwise, k, by ring⟩

end Arc

/-- The sweep between two angles of their range is the one turn in the given direction that leads
from the one to the other, and then an arc turns that way all along, by less than once around, and
does not leave its start if it ends in the same direction. Only between the two ends of the range,
in one of their two orders, the sweep is a whole turn instead. -/
theorem arcSweep_isTurn_iff [Trigonometry] {a b : ℝ} (ha : a ∈ Set.Icc (-π) π)
    (hb : b ∈ Set.Icc (-π) π) (clockwise : Bool) :
    (¬LiesAcross clockwise a b ↔ ∀ s : ℝ, arcSweep (a : EReal) b clockwise = s ↔
      IsTurn clockwise s ∧ SameDirection s (b - a)) ∧
    (LiesAcross clockwise a b → arcSweep (a : EReal) b clockwise = wholeTurn clockwise) ∧
    ∀ arc : Arc EReal, arc.startAngle = a → arc.endAngle = b → arc.clockwise = clockwise →
      (¬arc.isDegenerate = true → ∀ t,
        arc.pointAt t = arc.center.onCircle arc.radius (arc.angleAt t)) ∧
      (¬LiesAcross clockwise a b → ∃ θ : ℝ → ℝ, (∀ t : ℝ, arc.angleAt t = θ t) ∧
        ∀ t u, 0 ≤ t → t ≤ u → u ≤ 1 → IsTurn clockwise (θ u - θ t)) ∧
      (SameDirection a b → (arc.sweep = 0 ↔ arc.isDegenerate = true ∨ ¬LiesAcross clockwise a b) ∧
        (arc.sweep = 0 → (Segment.arc arc).length = 0 ∧ ∀ (s : Sampler EReal) label,
          ∃ x, s.sample [.arc arc] label = .ok [x])) := by
  refine ⟨⟨fun hacross s => arcSweep_eq_iff ha hb hacross, fun h hacross => ?_⟩,
    arcSweep_of_liesAcross ha hb, ?_⟩
  · have hwhole := ((h _).1 (arcSweep_of_liesAcross ha hb hacross)).1
    exact not_isTurn_wholeTurn clockwise hwhole
  · rintro arc hstart hend rfl
    refine ⟨fun hdegenerate t => ?_, fun hacross => ?_, fun hdir => ⟨?_, fun hzero => ?_⟩⟩
    · rw [Arc.pointAt, if_neg hdegenerate]
      rfl
    · obtain ⟨s, hs, hturn⟩ := Arc.exists_sweep_isTurn ha hb hstart hend hacross
      exact Arc.exists_angles_of_isTurn hstart hs hturn
    · exact Arc.sweep_eq_zero_iff ha hb hstart hend hdir
    · have hlength := Arc.length_of_sweep_eq_zero hzero
      exact ⟨hlength, fun s label => ⟨_, s.sample_of_length_le hlength.le label⟩⟩

section Exact

attribute [local instance] Trigonometry.real

/-- From straight up to the lower end of the range it is a quarter turn to the left. -/
theorem arcSweep_isTurn_iff_quarter :
    π / 2 ∈ Set.Icc (-π) π ∧ -π ∈ Set.Icc (-π) π ∧
      arcSweep ((π / 2 : ℝ) : EReal) (-π : ℝ) false = (π / 2 : ℝ) := by
  have hup : π / 2 ∈ Set.Icc (-π) π := ⟨by linarith [pi_pos], by linarith [pi_pos]⟩
  have hend : -π ∈ Set.Icc (-π) π := ⟨le_rfl, by linarith [pi_pos]⟩
  have hacross : ¬LiesAcross false (π / 2) (-π) := by
    rintro ⟨h, -⟩
    linarith [pi_pos]
  have hturn : IsTurn false (π / 2) := ⟨by linarith [pi_pos], by linarith [pi_pos]⟩
  exact ⟨hup, hend, ((arcSweep_isTurn_iff hup hend false).1.1 hacross (π / 2)).2
    ⟨hturn, 1, by push_cast; ring⟩⟩

/-- An arc from (0, 0) to (0, -0) around (5, 0), whose two angles are the ends of the range. -/
def loopBack : Arc Float where
  start := ⟨0, 0⟩
  stop := ⟨0, -0⟩
  center := ⟨5, 0⟩
  radius := 5
  clockwise := true
  startAngle := Scalar.pi
  endAngle := -Scalar.pi

/-- Clockwise from the upper end of the range to the lower one the sweep is no turn, and an arc that
ends where it starts goes once around. -/
theorem arcSweep_across_goes_around :
    (∀ s : ℝ, arcSweep (π : EReal) (-π : ℝ) true = s → ¬IsTurn true s) ∧
      (loopBack.start.x == loopBack.stop.x && loopBack.start.y == loopBack.stop.y) = true ∧
      loopBack.sweep = -Scalar.fullTurn ∧ 31 < (Segment.arc loopBack).length := by
  have hspan : ¬(0 : EReal) < (-π - π : ℝ) := by
    rw [EReal.coe_pos]
    linarith [pi_pos]
  have hsweep : arcSweep (π : EReal) (-π : ℝ) true = (-π - π : ℝ) := if_neg hspan
  refine ⟨fun s hs hturn => ?_, by decide +kernel, by decide +kernel, by decide +kernel⟩
  rw [hsweep, EReal.coe_eq_coe_iff] at hs
  linarith [hturn.1]

end Exact

end SheetCut
