import SheetCut.Proofs.Binary64.Packing
import SheetCut.Scalar

/-!
# Arithmetic on binary64 that does not round

A product with one, a sum with zero and a quotient of equals are what they are without rounding. The
sign of a zero is lost in sums, so a sum is only equal as numbers are compared.
-/

namespace SheetCut.Binary64

open Float.Model Float.Model.UnpackedFloat

theorem mul_def (x y : Float) :
    x * y = pack (UnpackedFloat.mul Format.binary64 (unpack x) (unpack y)) := rfl

theorem add_def (x y : Float) :
    x + y = pack (UnpackedFloat.add Format.binary64 (unpack x) (unpack y)) := rfl

theorem div_def (x y : Float) :
    x / y = pack (UnpackedFloat.div Format.binary64 (unpack x) (unpack y)) := rfl

theorem unpack_pack_zero (s : Sign) : unpack (pack (.zero s)) = .zero s := by
  cases s <;> rfl

theorem unpack_one : unpack 1 = .finite .positive (2 ^ 52) (-52) (by decide) := by
  rfl

theorem shiftRight_mul_two_pow (m k : Nat) :
    (⟨m * 2 ^ k, false, false⟩ : ExtendedMantissa) >>> k = ⟨m, false, false⟩ := by
  induction k generalizing m with
  | zero => rw [pow_zero, mul_one]; rfl
  | succ k ih =>
    have hlast : (⟨m * 2 ^ (k + 1), false, false⟩ : ExtendedMantissa) >>> (k + 1) =
        ((⟨m * 2 * 2 ^ k, false, false⟩ : ExtendedMantissa) >>> k).shiftRightOne := by
      rw [pow_succ', ← mul_assoc]
      rfl
    rw [hlast, ih, ExtendedMantissa.shiftRightOne]
    simp

theorem totalExponent_mul_two_pow {m : Nat} (hpos : 0 < m) (e : Int) (k : Nat) :
    totalExponent (m * 2 ^ k) (e - k) = totalExponent m e := by
  have hlog : (m * 2 ^ k).log2 = m.log2 + k := by
    rw [Nat.log2_eq_iff (Nat.mul_pos hpos (Nat.two_pow_pos k)).ne', pow_add, add_right_comm,
      pow_add]
    exact ⟨Nat.mul_le_mul_right _ (Nat.log2_self_le hpos.ne'),
      Nat.mul_lt_mul_of_pos_right Nat.lt_log2_self (Nat.two_pow_pos k)⟩
  rw [totalExponent, totalExponent, hlog]
  omega

theorem targetExponent_of_isCanonical {m : Nat} {e : Int} (hpos : 0 < m) (h : IsCanonical m e) :
    Format.binary64.targetExponent (totalExponent m e) = e := by
  show max ((m.log2 : Int) + 1 + e - 53) (-1074) = e
  obtain ⟨hlt, hle, hfull | rfl⟩ := h
  · rw [log2_eq_of_isFull hlt hfull]
    omega
  · have hlog := (Nat.log2_lt hpos.ne').2 hlt
    omega

theorem shiftToTargetExponent_of_isCanonical {m : Nat} {e : Int} (hpos : 0 < m)
    (h : IsCanonical m e) (k : Nat) :
    shiftToTargetExponent Format.binary64 (m * 2 ^ k) (e - k) .exact = (⟨m, false, false⟩, e) := by
  rw [shiftToTargetExponent, totalExponent_mul_two_pow hpos, targetExponent_of_isCanonical hpos h,
    shiftToExponent, sub_sub_cancel, Int.toNat_natCast]
  exact Prod.ext (shiftRight_mul_two_pow m k) (sub_add_cancel e k)

theorem roundWithAccuracy_of_isCanonical (s : Sign) {m : Nat} {e : Int} (hpos : 0 < m)
    (h : IsCanonical m e) (k : Nat) :
    roundWithAccuracy Format.binary64 s (m * 2 ^ k) (e - k) .exact = .finite s m e hpos := by
  have hagain := shiftToTargetExponent_of_isCanonical hpos h 0
  have hrounded : (ExtendedMantissa.mk m false false).roundedMantissa = m := rfl
  rw [pow_zero, mul_one, Int.natCast_zero, sub_zero] at hagain
  rw [roundWithAccuracy]
  simp only [shiftToTargetExponent_of_isCanonical hpos h k, hrounded, hagain]
  exact dif_neg hpos.ne'

theorem one_mul_float (x : Float) : 1 * x = x := by
  refine Eq.trans ?_ (pack_unpack x)
  rw [mul_def, unpack_one]
  refine congrArg pack ?_
  cases hx : unpack x with
  | notANumber => rfl
  | infinity s => cases s <;> rfl
  | zero s => cases s <;> rfl
  | finite s m e hpos =>
    have hround := roundWithAccuracy_of_isCanonical s hpos (isCanonical_of_unpack hx) 52
    have hsign : Sign.positive * s = s := by cases s <;> rfl
    rw [UnpackedFloat.mul, hsign, mul_comm, ← hround]
    congr 1
    omega

theorem mul_comm_float (x y : Float) : x * y = y * x := by
  have hsign : ∀ s t : Sign, s * t = t * s := by intro s t; cases s <;> cases t <;> rfl
  rw [mul_def, mul_def]
  cases unpack x <;> cases unpack y <;>
    simp [UnpackedFloat.mul, hsign, mul_comm, add_comm]

theorem add_comm_float (x y : Float) : x + y = y + x := by
  have hequal : ∀ s t : Sign, (s == t) = true → s = t := by
    intro s t h
    cases s <;> cases t <;> first | rfl | exact absurd h Bool.false_ne_true
  have hself : ∀ s : Sign, (s == s) = true := by
    intro s
    cases s <;> rfl
  rw [add_def, add_def]
  refine congrArg pack ?_
  cases unpack x <;> cases unpack y <;>
    grind [UnpackedFloat.add]

theorem isFinite_iff {x : Float} : x.isFinite = true ↔
    (∃ s, unpack x = .zero s) ∨ ∃ s m e hpos, unpack x = .finite s m e hpos := by
  show (unpack x).isFinite = true ↔ _
  cases unpack x with
  | notANumber => simp [UnpackedFloat.isFinite]
  | infinity s => simp [UnpackedFloat.isFinite]
  | zero s => simp [UnpackedFloat.isFinite]
  | finite s m e hpos => exact ⟨fun _ => .inr ⟨s, m, e, hpos, rfl⟩, fun _ => rfl⟩

theorem unpack_zero_mul {x : Float} (hx : x.isFinite = true) : ∃ s, unpack (0 * x) = .zero s := by
  have hzero : unpack 0 = .zero .positive := rfl
  rw [mul_def, hzero]
  rcases isFinite_iff.1 hx with ⟨s, h⟩ | ⟨s, m, e, hpos, h⟩ <;> rw [h] <;>
    exact ⟨_, unpack_pack_zero _⟩

theorem beq_of_unpack_zero {x y : Float} {s t : Sign} (hx : unpack x = .zero s)
    (hy : unpack y = .zero t) : (x == y) = true := by
  rw [← pack_unpack x, ← pack_unpack y, hx, hy]
  cases s <;> cases t <;> rfl

theorem beq_zero_add {x z : Float} {s : Sign} (hx : x.isFinite = true) (hz : unpack z = .zero s) :
    (x == z + x) = true := by
  rcases isFinite_iff.1 hx with ⟨t, h⟩ | ⟨t, m, e, hpos, h⟩
  · obtain ⟨u, hu⟩ : ∃ u, unpack (z + x) = .zero u := by
      rw [add_def, hz, h]
      cases s <;> cases t <;> exact ⟨_, unpack_pack_zero _⟩
    exact beq_of_unpack_zero h hu
  · have hsum : z + x = x := by
      rw [add_def, hz, h, UnpackedFloat.add, ← h, pack_unpack]
      all_goals simp
    have hnan : x ≠ Float.nan := by
      rintro rfl
      exact absurd hx (by decide)
    rw [hsum, Float.beq_self_iff]
    exact hnan

theorem beq_add_zero {x z : Float} {s : Sign} (hx : x.isFinite = true) (hz : unpack z = .zero s) :
    (x == x + z) = true := by
  rw [add_comm_float]
  exact beq_zero_add hx hz

theorem div_self_float {x : Float} {s : Sign} {m : Nat} {e : Int} {hpos : 0 < m}
    (hx : unpack x = .finite s m e hpos) : x / x = 1 := by
  have hsign : s / s = Sign.positive := by cases s <;> rfl
  have hquotient : divCore Format.binary64 m e m e = (2 ^ 53, -53, .exact) := by
    rw [divCore, sub_self, sub_self]
    show (m <<< 53 / m, (-53 : Int), accuracyOfFraction (m <<< 53 % m) m) = _
    rw [Nat.shiftLeft_eq, Nat.mul_div_cancel_left _ hpos, Nat.mul_mod_right]
    rfl
  rw [div_def, hx, UnpackedFloat.div, hsign]
  simp only [hquotient]
  rfl

theorem zero_div_float {x : Float} {m : Nat} {e : Int} {hpos : 0 < m}
    (hx : unpack x = .finite .positive m e hpos) : 0 / x = 0 := by
  rw [div_def, hx]
  rfl

/-- A natural number of up to 53 bits is taken as it is. -/
theorem ofNat_eq {n : Nat} (hlt : n < 2 ^ 53) :
    Float.ofNat n = pack (UnpackedFloat.ofNat Format.binary64 n) := by
  have hsize : n.toUInt64.toNat = n := by
    show n % 2 ^ 64 = n
    omega
  calc Float.ofNat n = n.toUInt64.toFloat * 1 := by
        show Float.ofScientific n false 0 = _
        rw [Float.ofScientific, dif_pos ⟨hlt, by decide⟩]
        rfl
    _ = n.toUInt64.toFloat := by rw [mul_comm_float, one_mul_float]
    _ = pack (UnpackedFloat.ofNat Format.binary64 n) := by
        show pack (UnpackedFloat.ofNat Format.binary64 n.toUInt64.toNat) = _
        rw [hsize]

/-- All 53 bits of the mantissa are put to use. -/
theorem unpack_ofNat_eq {n : Nat} (hpos : 0 < n) (hlt : n < 2 ^ 53) :
    ∃ (k : Nat) (hm : 0 < n * 2 ^ k),
      unpack (Float.ofNat n) = .finite .positive (n * 2 ^ k) (-k) hm ∧ 2 ^ 52 ≤ n * 2 ^ k := by
  obtain ⟨k, hk⟩ := Nat.exists_eq_add_of_le (Nat.le_of_lt_succ ((Nat.log2_lt hpos.ne').2 hlt))
  have hlo : 2 ^ 52 ≤ n * 2 ^ k := by
    rw [hk, pow_add]
    exact Nat.mul_le_mul_right _ (Nat.log2_self_le hpos.ne')
  have hhi : n * 2 ^ k < 2 ^ 53 := by
    have hsplit : 53 = n.log2 + 1 + k := by omega
    rw [hsplit, pow_add]
    exact Nat.mul_lt_mul_of_pos_right Nat.lt_log2_self (Nat.two_pow_pos k)
  have hm : 0 < n * 2 ^ k := Nat.mul_pos hpos (Nat.two_pow_pos k)
  have hround := roundWithAccuracy_of_isCanonical .positive hm (e := -k)
    ⟨hhi, by omega, .inl hlo⟩ 0
  rw [pow_zero, mul_one, Int.natCast_zero, sub_zero] at hround
  have hofNat : UnpackedFloat.ofNat Format.binary64 n = .finite .positive (n * 2 ^ k) (-k) hm := by
    have htarget : Format.binary64.targetExponent (totalExponent n 0) = -k := by
      show max ((n.log2 : Int) + 1 + 0 - 53) (-1074) = -k
      omega
    have hcompare : compare (n : Int) 0 = .gt := Int.compare_eq_gt.2 (by omega)
    have hshift : (0 - -(k : Int)).toNat = k := by omega
    rw [UnpackedFloat.ofNat, UnpackedFloat.ofInt, UnpackedFloat.normalize, hcompare]
    simp only [Int.toNat_natCast, UnpackedFloat.round, htarget, decreaseExponent, Nat.shiftLeft_eq]
    rw [hshift, zero_sub, hround]
  rw [ofNat_eq hlt, hofNat]
  exact ⟨k, hm, unpack_pack_normal .positive hm hlo hhi (by omega) (by omega), hlo⟩

theorem unpack_ofNat {n : Nat} (hpos : 0 < n) (hlt : n < 2 ^ 53) :
    ∃ m e hpos, unpack (Float.ofNat n) = .finite .positive m e hpos := by
  obtain ⟨k, hm, h, -⟩ := unpack_ofNat_eq hpos hlt
  exact ⟨_, _, hm, h⟩

theorem lt_iff {x y : Float} : x < y ↔ (unpack x).lt (unpack y) = true := decide_eq_true_iff

theorem ceil?_pos_iff {x : Float} {n : Nat} (h : ceil? x = some n) : 0 < n ↔ 0 < x := by
  have hzero : unpack 0 = .zero .positive := rfl
  rw [lt_iff, hzero]
  rw [ceil?] at h
  cases hx : unpack x with
  | notANumber => rw [hx] at h; cases h
  | infinity s => rw [hx] at h; cases h
  | zero s => rw [hx] at h; cases h; exact iff_of_false (lt_irrefl 0) Bool.false_ne_true
  | finite s m e hpos =>
    rw [hx] at h
    cases s with
    | negative =>
      cases h
      exact iff_of_false (lt_irrefl 0) Bool.false_ne_true
    | positive =>
      cases h
      refine iff_of_true (Nat.div_pos ?_ (Nat.two_pow_pos _)) rfl
      have hden := Nat.two_pow_pos (-e).toNat
      have hnum : 0 < m * 2 ^ e.toNat := Nat.mul_pos hpos (Nat.two_pow_pos _)
      omega

end SheetCut.Binary64
