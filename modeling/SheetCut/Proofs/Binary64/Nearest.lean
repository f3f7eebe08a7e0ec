import SheetCut.Proofs.Binary64.Rounding

/-!
# The nearest float

What rounding means for the floats themselves: of all finite floats the result is the nearest one,
and one with an even mantissa where two are equally near. A number that lies half a step or more
beyond the largest float gives an infinity.
-/

namespace SheetCut.Binary64

open Float.Model Float.Model.UnpackedFloat

/-- The exact value of a finite float, and 0 for the others. -/
def toRat (x : Float) : ℚ :=
  match unpack x with
  | .finite .positive m e _ => m * 2 ^ e
  | .finite .negative m e _ => -(m * 2 ^ e)
  | _ => 0

def HasEvenMantissa (x : Float) : Prop :=
  ∀ s m e hpos, unpack x = .finite s m e hpos → m % 2 = 0

/-- The number half a step above the largest float. -/
def overflow : ℚ := (2 ^ (53 : ℤ) - 1 / 2) * 2 ^ (971 : ℤ)

/-- The float is the one that the number is rounded to: the nearest one, one with an even mantissa
if two are equally near, and an infinity beyond the range. -/
structure IsNearestFloat (q : ℚ) (x : Float) : Prop where
  isFinite : |q| < overflow → x.isFinite = true
  distance_le : |q| < overflow → ∀ y : Float, y.isFinite = true → |toRat x - q| ≤ |toRat y - q|
  even_of_tie : |q| < overflow → ∀ y : Float, y.isFinite = true →
    |toRat x - q| = |toRat y - q| → toRat y = toRat x ∨ HasEvenMantissa x
  eq_infinity : overflow ≤ q → x = 1 / 0
  eq_neg_infinity : q ≤ -overflow → x = -(1 / 0)

section Distances

variable {n : ℕ} {y x v : ℚ} {t : ℤ}

theorem IsNearest.abs_sub_le_half (h : IsNearest n y) : |(n : ℚ) - y| ≤ 1 / 2 := by
  rw [abs_le]
  constructor
  · linarith [h.sub_half_le]
  · linarith [h.le_add_half]

theorem half_le_abs_sub (h : IsNearest n y) {k : ℤ} (hk : k ≠ n) : 1 / 2 ≤ |(k : ℚ) - y| := by
  have hone : (1 : ℚ) ≤ |(k : ℚ) - n| := by
    have hint : 1 ≤ |k - n| := Int.one_le_abs (sub_ne_zero.2 hk)
    exact_mod_cast hint
  have htriangle := abs_sub_le (k : ℚ) y n
  rw [abs_sub_comm y n] at htriangle
  linarith [h.abs_sub_le_half]

theorem IsNearest.abs_sub_le (h : IsNearest n y) (k : ℤ) : |(n : ℚ) - y| ≤ |k - y| := by
  by_cases hk : k = n
  · rw [hk, Int.cast_natCast]
  · exact h.abs_sub_le_half.trans (half_le_abs_sub h hk)

end Distances

section Range

variable {m n : ℕ} {x : ℚ} {e t : ℤ}

end Range

section Results

variable {m n : ℕ} {x q : ℚ} {e t : ℤ} {u : UnpackedFloat} {y : Float}

theorem unpack_neg (y : Float) : unpack (-y) = (unpack y).neg := by
  change unpack (pack (unpack y).neg) = _
  cases hy : unpack y with
  | notANumber => rfl
  | infinity s => exact unpack_pack_infinity _
  | zero s => exact unpack_pack_zero _
  | finite s m e hpos =>
    have hunpack := unpack_pack_of_isCanonical (-s) hpos (isCanonical_of_unpack hy)
    rwa [if_pos (exponent_le_of_unpack hy)] at hunpack

theorem toRat_neg (y : Float) : toRat (-y) = -toRat y := by
  rw [toRat, toRat, unpack_neg]
  cases unpack y with
  | notANumber => simp [UnpackedFloat.neg]
  | infinity s => simp [UnpackedFloat.neg]
  | zero s => simp [UnpackedFloat.neg]
  | finite s m e hpos => cases s <;> simp [UnpackedFloat.neg]

theorem isFinite_neg (y : Float) : (-y).isFinite = y.isFinite := by
  change (unpack (-y)).isFinite = (unpack y).isFinite
  rw [unpack_neg]
  cases unpack y <;> rfl

theorem neg_neg_float (y : Float) : - -y = y := by
  rw [← pack_unpack (- -y), unpack_neg, unpack_neg]
  conv_rhs => rw [← pack_unpack y]
  cases unpack y with
  | notANumber => rfl
  | infinity s => cases s <;> rfl
  | zero s => cases s <;> rfl
  | finite s m e hpos => cases s <;> rfl

/-- Rounding goes the same way on both sides of zero. -/
theorem IsNearestFloat.neg (h : IsNearestFloat q y) : IsNearestFloat (-q) (-y) := by
  have hmirror : ∀ z : Float, |toRat z - -q| = |toRat (-z) - q| := by
    intro z
    rw [toRat_neg, ← abs_neg]
    congr 1
    ring
  constructor
  · rw [abs_neg, isFinite_neg]
    exact h.isFinite
  · rw [abs_neg]
    intro hlt z hz
    rw [hmirror, hmirror, neg_neg_float]
    exact h.distance_le hlt (-z) (by rwa [isFinite_neg])
  · rw [abs_neg]
    intro hlt z hz htie
    rw [hmirror, hmirror, neg_neg_float] at htie
    rcases h.even_of_tie hlt (-z) (by rwa [isFinite_neg]) htie with heq | heven
    · left
      rw [toRat_neg] at heq ⊢
      rw [← heq, neg_neg]
    · right
      intro s m e hpos hs
      rw [unpack_neg] at hs
      cases hy : unpack y with
      | finite s' m' e' hpos' =>
        rw [hy] at hs
        cases hs
        exact heven _ _ _ _ hy
      | _ =>
        rw [hy] at hs
        cases hs
  · intro hle
    rw [h.eq_neg_infinity (by linarith), neg_neg_float]
  · intro hle
    rw [h.eq_infinity (by linarith)]

end Results

end SheetCut.Binary64
