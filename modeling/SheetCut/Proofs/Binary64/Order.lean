import Mathlib
import SheetCut.Proofs.Binary64.Arithmetic

/-!
# The order of binary64

Floats are compared by sign, then by exponent and then by mantissa. So each of them but the one that
is not a number has a place in a linear order, and comparing floats is comparing places.
-/

namespace SheetCut.Binary64

open Float.Model Float.Model.UnpackedFloat

/-- The place among all numbers: by sign and by being infinite, then by exponent and mantissa. -/
def rank : UnpackedFloat → ℤ ×ₗ ℤ ×ₗ ℤ
  | .notANumber => toLex (0, toLex (0, 0))
  | .infinity .positive => toLex (2, toLex (0, 0))
  | .infinity .negative => toLex (-2, toLex (0, 0))
  | .zero _ => toLex (0, toLex (0, 0))
  | .finite .positive m e _ => toLex (1, toLex (e, m))
  | .finite .negative m e _ => toLex (-1, toLex (-e, -m))

section Ranks

theorem compare_neg (a b : ℤ) : compare (-a) (-b) = (compare a b).swap := by
  cases h : compare a b with
  | lt => exact compare_gt_iff_gt.2 (neg_lt_neg (compare_lt_iff_lt.1 h))
  | eq => exact compare_eq_iff_eq.2 (congrArg Neg.neg (compare_eq_iff_eq.1 h))
  | gt => exact compare_lt_iff_lt.2 (neg_lt_neg (compare_gt_iff_gt.1 h))

theorem compare_natCast (a b : ℕ) : compare (a : ℤ) b = compare a b := by
  cases h : compare a b with
  | lt => exact compare_lt_iff_lt.2 (Int.ofNat_lt.2 (compare_lt_iff_lt.1 h))
  | eq => exact compare_eq_iff_eq.2 (congrArg Nat.cast (compare_eq_iff_eq.1 h))
  | gt => exact compare_gt_iff_gt.2 (Int.ofNat_lt.2 (compare_gt_iff_gt.1 h))

theorem compare_rank_positive {m n : ℕ} {e f : ℤ} (hm : 0 < m) (hn : 0 < n) :
    compare (rank (.finite .positive m e hm)) (rank (.finite .positive n f hn)) =
      (compare e f).then (compare m n) := by
  show (compare e f).then (compare (m : ℤ) n) = _
  rw [compare_natCast]

theorem compare_rank_negative {m n : ℕ} {e f : ℤ} (hm : 0 < m) (hn : 0 < n) :
    compare (rank (.finite .negative m e hm)) (rank (.finite .negative n f hn)) =
      ((compare e f).then (compare m n)).swap := by
  show (compare (-e) (-f)).then (compare (-m : ℤ) (-n)) = _
  rw [compare_neg, compare_neg, compare_natCast, Ordering.swap_then]

/-- Floats are compared as their places are. -/
theorem compare_eq {u v : UnpackedFloat} (hu : u ≠ .notANumber) (hv : v ≠ .notANumber) :
    u.compare v = some (compare (rank u) (rank v)) := by
  cases u with
  | notANumber => contradiction
  | infinity s =>
    cases v with
    | notANumber => contradiction
    | infinity t => cases s <;> cases t <;> rfl
    | zero t => cases s <;> rfl
    | finite t n f hn => cases s <;> cases t <;> rfl
  | zero s =>
    cases v with
    | notANumber => contradiction
    | infinity t => cases t <;> rfl
    | zero t => rfl
    | finite t n f hn => cases t <;> rfl
  | finite s m e hm =>
    cases v with
    | notANumber => contradiction
    | infinity t => cases s <;> cases t <;> rfl
    | zero t => cases s <;> rfl
    | finite t n f hn =>
      cases s with
      | positive =>
        cases t with
        | positive => exact congrArg some (compare_rank_positive hm hn).symm
        | negative => rfl
      | negative =>
        cases t with
        | positive => rfl
        | negative => exact congrArg some (compare_rank_negative hm hn).symm

end Ranks

def IsNumber (x : Float) : Prop := unpack x ≠ .notANumber

def place (x : Float) : ℤ ×ₗ ℤ ×ₗ ℤ := rank (unpack x)

section Places

variable {x y z : Float}

theorem le_iff {x y : Float} : x ≤ y ↔ (unpack x).le (unpack y) = true := decide_eq_true_iff

/-- Only numbers are compared at all. -/
theorem isNumber_of_compare {o : Ordering} (h : (unpack x).compare (unpack y) = some o) :
    IsNumber x ∧ IsNumber y := by
  constructor
  · intro hx
    rw [hx] at h
    cases h
  · intro hy
    rw [hy] at h
    cases hx : unpack x <;> rw [hx] at h <;> cases h

theorem isNumber_of_lt (h : x < y) : IsNumber x ∧ IsNumber y :=
  isNumber_of_compare (beq_iff_eq.1 (lt_iff.1 h))

theorem isNumber_of_le (h : x ≤ y) : IsNumber x ∧ IsNumber y := by
  obtain ⟨o, ho, -⟩ := (Option.any_eq_true _ _).1 (le_iff.1 h)
  exact isNumber_of_compare ho

theorem lt_iff_place (hx : IsNumber x) (hy : IsNumber y) : x < y ↔ place x < place y := by
  rw [lt_iff, UnpackedFloat.lt, compare_eq hx hy, beq_iff_eq, Option.some_inj]
  exact compare_lt_iff_lt

theorem le_iff_place (hx : IsNumber x) (hy : IsNumber y) : x ≤ y ↔ place x ≤ place y := by
  rw [le_iff, UnpackedFloat.le, compare_eq hx hy]
  exact Ordering.isLE_iff_ne_gt.trans compare_le_iff_le

theorem le_refl_float (hx : IsNumber x) : x ≤ x := (le_iff_place hx hx).2 le_rfl

theorem le_trans_float (hxy : x ≤ y) (hyz : y ≤ z) : x ≤ z := by
  obtain ⟨hx, hy⟩ := isNumber_of_le hxy
  obtain ⟨-, hz⟩ := isNumber_of_le hyz
  rw [le_iff_place hx hy] at hxy
  rw [le_iff_place hy hz] at hyz
  exact (le_iff_place hx hz).2 (hxy.trans hyz)

theorem le_of_lt_float (h : x < y) : x ≤ y := by
  obtain ⟨hx, hy⟩ := isNumber_of_lt h
  rw [lt_iff_place hx hy] at h
  exact (le_iff_place hx hy).2 h.le

theorem lt_of_lt_of_le_float (hxy : x < y) (hyz : y ≤ z) : x < z := by
  obtain ⟨hx, hy⟩ := isNumber_of_lt hxy
  obtain ⟨-, hz⟩ := isNumber_of_le hyz
  rw [lt_iff_place hx hy] at hxy
  rw [le_iff_place hy hz] at hyz
  exact (lt_iff_place hx hz).2 (hxy.trans_le hyz)

theorem not_lt_iff_le (hx : IsNumber x) (hy : IsNumber y) : ¬x < y ↔ y ≤ x := by
  rw [lt_iff_place hx hy, le_iff_place hy hx, not_lt]

end Places

section Finite

variable {x y z : Float}

theorem isNumber_of_isFinite (h : x.isFinite = true) : IsNumber x := by
  intro hx
  rcases isFinite_iff.1 h with ⟨s, hs⟩ | ⟨s, m, e, hpos, hs⟩ <;> rw [hx] at hs <;> cases hs

/-- The finite numbers are those between the two infinities. -/
theorem isFinite_iff_place (hx : IsNumber x) :
    x.isFinite = true ↔
      rank (.infinity .negative) < place x ∧ place x < rank (.infinity .positive) := by
  rw [place]
  show (unpack x).isFinite = true ↔ _
  cases h : unpack x with
  | notANumber => exact absurd h hx
  | infinity s => cases s <;> simp [UnpackedFloat.isFinite]
  | zero s => simp [UnpackedFloat.isFinite, rank, Prod.Lex.toLex_lt_toLex]
  | finite s m e hpos => cases s <;> simp [UnpackedFloat.isFinite, rank, Prod.Lex.toLex_lt_toLex]

/-- What lies between finite numbers is finite. -/
theorem isFinite_of_le_of_le (hx : x.isFinite = true) (hxy : x ≤ y) (hyz : y ≤ z)
    (hz : z.isFinite = true) : y.isFinite = true := by
  obtain ⟨hxn, hyn⟩ := isNumber_of_le hxy
  have hzn := (isNumber_of_le hyz).2
  rw [isFinite_iff_place hxn] at hx
  rw [isFinite_iff_place hzn] at hz
  rw [le_iff_place hxn hyn] at hxy
  rw [le_iff_place hyn hzn] at hyz
  exact (isFinite_iff_place hyn).2 ⟨hx.1.trans_le hxy, hyz.trans_lt hz.2⟩

end Finite

end SheetCut.Binary64
