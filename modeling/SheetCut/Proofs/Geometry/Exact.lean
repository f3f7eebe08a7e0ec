import Mathlib.Analysis.SpecialFunctions.Trigonometric.Basic
import Mathlib.Data.EReal.Inv
import SheetCut.Geometry.Bounds

/-!
# Exact scalars

The extended reals as scalars, computed without rounding. A finite scalar is a real number, and the
two infinities are there for the empty box. The functions of angles are left open: what does not
depend on them holds for any.
-/

namespace SheetCut

class Trigonometry where
  sin : ℝ → ℝ
  cos : ℝ → ℝ
  atan2 : ℝ → ℝ → ℝ

noncomputable def wholePart (x : ℝ) : ℤ := if 0 ≤ x then ⌊x⌋ else ⌈x⌉

/-- The whole part, cut off at two limits. -/
noncomputable def clampedWhole (least most : ℤ) (x : EReal) : ℤ :=
  if x = ⊤ then most else if x = ⊥ then least else max least (min most (wholePart x.toReal))

open Classical in
noncomputable instance [Trigonometry] : Scalar EReal where
  zero := 0
  one := 1
  natCast := fun n => n
  add := (· + ·)
  sub := (· - ·)
  neg := Neg.neg
  mul := (· * ·)
  div := (· / ·)
  lt := (· < ·)
  le := (· ≤ ·)
  beq := fun x y => decide (x = y)
  decidableLT := fun _ _ => inferInstance
  decidableLE := fun _ _ => inferInstance
  abs := fun x => max x (-x)
  isFinite := fun x => decide (x ≠ ⊤ ∧ x ≠ ⊥)
  infinity := ⊤
  pi := (Real.pi : ℝ)
  sin := fun x => (Trigonometry.sin x.toReal : ℝ)
  cos := fun x => (Trigonometry.cos x.toReal : ℝ)
  atan2 := fun y x => (Trigonometry.atan2 y.toReal x.toReal : ℝ)
  hypot := fun x y =>
    if x ≠ ⊤ ∧ x ≠ ⊥ ∧ y ≠ ⊤ ∧ y ≠ ⊥ then (√(x.toReal ^ 2 + y.toReal ^ 2) : ℝ) else ⊤
  rem := fun x y => (x.toReal - y.toReal * wholePart (x.toReal / y.toReal) : ℝ)
  ceil? := fun x => if x ≠ ⊤ ∧ x ≠ ⊥ then some ⌈x.toReal⌉₊ else none
  ofDecimal := fun m e => ((m : ℝ) * 10 ^ e : ℝ)
  toInt32 := fun x => Int32.ofInt (clampedWhole Int32.minValue.toInt Int32.maxValue.toInt x)
  toUInt32 := fun x => UInt32.ofNat (clampedWhole 0 (UInt32.size - 1) x).toNat

namespace Scalar

variable [Trigonometry]

theorem isFinite_iff {x : EReal} : isFinite x = true ↔ x ≠ ⊤ ∧ x ≠ ⊥ := decide_eq_true_iff

theorem isFinite_coe (r : ℝ) : isFinite (r : EReal) = true :=
  isFinite_iff.2 ⟨EReal.coe_ne_top r, EReal.coe_ne_bot r⟩

theorem isFinite_iff_exists {x : EReal} : isFinite x = true ↔ ∃ r : ℝ, x = r := by
  constructor
  · intro h
    obtain ⟨htop, hbot⟩ := isFinite_iff.1 h
    exact ⟨x.toReal, (EReal.coe_toReal htop hbot).symm⟩
  · rintro ⟨r, rfl⟩
    exact isFinite_coe r

theorem lower_eq_min (a b : EReal) : lower a b = min a b := by
  rw [lower]
  split
  · next h => exact (min_eq_right (h.resolve_right fun hself => hself le_rfl)).symm
  · next h => exact (min_eq_left (le_of_lt (not_le.1 fun hle => h (.inl hle)))).symm

theorem upper_eq_max (a b : EReal) : upper a b = max a b := by
  rw [upper]
  split
  · next h => exact (max_eq_right (h.resolve_right fun hself => hself le_rfl)).symm
  · next h => exact (max_eq_left (le_of_lt (not_le.1 fun hle => h (.inl hle)))).symm

end Scalar

end SheetCut
