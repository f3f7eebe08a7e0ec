import SheetCut.Proofs.Decimal.Shortest

/-!
# Reading decimals

A decimal is read as the float nearest to it, whether it is computed from two floats or exactly. So
every decimal in the interval of a float, and the shortest one above all, is read as that float.
-/

namespace SheetCut

namespace Binary64
open Float.Model Float.Model.UnpackedFloat

variable {n : ℕ} {d : ℤ}

/-- The table holds the powers of ten as they are, since those of five fit a mantissa. -/
theorem unpack_powerOfTen {k : ℕ} (hk : k < Float.exactlyRepresentablePowersOfTen.size) :
    ∃ (j : ℕ) (hm : 0 < 5 ^ k * 2 ^ j), unpack Float.exactlyRepresentablePowersOfTen[k] =
      .finite .positive (5 ^ k * 2 ^ j) (k - j) hm := by
  have hk' : k < 23 := hk
  rw [Array.getElem_eq_getD 0]
  clear hk
  refine ⟨52 - k * 65 / 28, by positivity, ?_⟩
  interval_cases k <;> rfl

theorem cast_powerOfTen (k j : ℕ) : ((5 ^ k * 2 ^ j : ℕ) * 2 ^ ((k : ℤ) - j) : ℚ) = 10 ^ k := by
  push_cast
  rw [zpow_sub₀ two_ne_zero, zpow_natCast, zpow_natCast, mul_assoc,
    mul_div_cancel₀ _ (by positivity), ← mul_pow]
  norm_num

theorem cast_mul_two_pow (n k : ℕ) : ((n * 2 ^ k : ℕ) * 2 ^ (-k : ℤ) : ℚ) = n := by
  push_cast
  rw [zpow_neg, zpow_natCast, mul_inv_cancel_right₀ (by positivity)]

theorem le_log2_mul {a b : ℕ} (ha : 2 ^ 52 ≤ a) (hb : 0 < b) : 52 ≤ (a * b).log2 :=
  (Nat.le_log2 (Nat.mul_pos ((Nat.two_pow_pos 52).trans_le ha) hb).ne').2
    (ha.trans (Nat.le_mul_of_pos_right a hb))

theorem toFloat_toUInt64 (hlt : n < 2 ^ 53) : n.toUInt64.toFloat = Float.ofNat n := by
  have hsize : n.toUInt64.toNat = n := by
    show n % 2 ^ 64 = n
    omega
  show pack (UnpackedFloat.ofNat Format.binary64 n.toUInt64.toNat) = _
  rw [hsize, ofNat_eq hlt]

/-- Half the least float. -/
theorem half_two_zpow : (2 : ℚ) ^ (-1075 : ℤ) = 1 / 2 * 2 ^ (-1074 : ℤ) := by
  rw [show (-1075 : ℤ) = -1074 - 1 by norm_num, zpow_sub_one₀ two_ne_zero]
  ring

/-- A number times or through a power of ten is rounded once. -/
theorem rounds_ofScientific (hn : 0 < n) (hlow : -(2048 + n.log2 : ℤ) ≤ d) (hhigh : d ≤ 2048) :
    Rounds .positive (n * 10 ^ d) (UnpackedFloat.ofScientific Format.binary64 n d) := by
  have hlarge : ¬d > 2 ^ Format.binary64.exponentBits := by
    show ¬d > 2048
    omega
  have hsmall : ¬d < -(2 ^ Format.binary64.exponentBits + n.log2 : ℤ) := by
    show ¬d < -(2048 + n.log2 : ℤ)
    omega
  rw [UnpackedFloat.ofScientific, dif_neg hn.ne', if_neg hlarge, if_neg hsmall]
  split
  · next hd =>
    obtain ⟨k, rfl⟩ := Int.eq_ofNat_of_zero_le hd
    have hten : 0 < 10 ^ k := Nat.pow_pos (by decide)
    have hshift : 2 ^ 52 ≤ n <<< 53 := by
      rw [Nat.shiftLeft_eq]
      omega
    have hrounds := rounds_mul .positive .positive (-53) 0
      ((Nat.two_pow_pos 52).trans_le hshift) hten (.inl (le_log2_mul hshift hten))
    have hvalue : ((n <<< 53 : ℕ) * 2 ^ (-53 : ℤ) * ((10 ^ k : ℕ) * 2 ^ (0 : ℤ)) : ℚ) =
        n * 10 ^ (k : ℤ) := by
      have hmantissa := cast_mul_two_pow n 53
      rw [Nat.cast_ofNat] at hmantissa
      rw [Nat.shiftLeft_eq, hmantissa, zpow_zero, mul_one, zpow_natCast, Nat.cast_pow,
        Nat.cast_ofNat]
    rw [hvalue] at hrounds
    exact hrounds
  · next hd =>
    obtain ⟨k, rfl⟩ : ∃ k : ℕ, d = -k := ⟨(-d).toNat, by omega⟩
    have hrounds := rounds_div .positive .positive 0 0 hn
      (Nat.pow_pos (n := k) (show 0 < 10 by decide))
    have hvalue : (n * 2 ^ (0 : ℤ) / ((10 ^ k : ℕ) * 2 ^ (0 : ℤ)) : ℚ) = n * 10 ^ (-k : ℤ) := by
      rw [zpow_zero, mul_one, mul_one, zpow_neg, zpow_natCast, div_eq_mul_inv, Nat.cast_pow,
        Nat.cast_ofNat]
    rw [hvalue] at hrounds
    simp only [neg_neg, Int.toNat_natCast]
    exact hrounds

/-- Where the exact computation is done. -/
theorem ofDecimal_of_not_fast (h : ¬(n < 2 ^ 53 ∧ d.natAbs ≤ 22)) : (Scalar.ofDecimal n d : Float) =
    pack (UnpackedFloat.ofScientific Format.binary64 n d) := by
  have hexponent : (if decide (d < 0) = true then Int.negOfNat d.natAbs else .ofNat d.natAbs) =
      d := by
    by_cases hd : d < 0
    · rw [if_pos (decide_eq_true hd), Int.negOfNat_eq, Int.ofNat_eq_natCast,
        Int.ofNat_natAbs_of_nonpos hd.le, neg_neg]
    · rw [if_neg (by simpa using hd)]
      exact Int.natAbs_of_nonneg (not_lt.1 hd)
  change Float.ofScientific n (d < 0) d.natAbs = _
  rw [Float.ofScientific, dif_neg h]
  change Float.ofModel (Float.Model.ofScientific n _) = _
  rw [hexponent]
  rfl

/-- A decimal is rounded once, also where it is computed from two floats. -/
theorem rounds_ofDecimal (hn : 0 < n) (hlow : -(2048 + n.log2 : ℤ) ≤ d) (hhigh : d ≤ 2048) :
    ∃ u, Rounds .positive (n * 10 ^ d) u ∧ (Scalar.ofDecimal n d : Float) = pack u := by
  by_cases hfast : n < 2 ^ 53 ∧ d.natAbs ≤ 22
  · obtain ⟨k, hm, hunpack, hfull⟩ := unpack_ofNat_eq hn hfast.1
    obtain ⟨j, hp, hpower⟩ := unpack_powerOfTen (Nat.lt_succ_of_le hfast.2)
    change ∃ u, _ ∧ Float.ofScientific n (d < 0) d.natAbs = pack u
    rw [Float.ofScientific, dif_pos hfast]
    dsimp only
    rw [toFloat_toUInt64 hfast.1]
    by_cases hd : d < 0
    · have hrounds := rounds_div .positive .positive (-k) (d.natAbs - j) hm hp
      have hnegative : ((10 : ℚ) ^ d.natAbs)⁻¹ = 10 ^ d := by
        rw [← zpow_natCast, ← zpow_neg, Int.ofNat_natAbs_of_nonpos hd.le, neg_neg]
      rw [cast_mul_two_pow, cast_powerOfTen, div_eq_mul_inv, hnegative] at hrounds
      refine ⟨_, hrounds, ?_⟩
      rw [if_pos (decide_eq_true hd), div_def, hunpack, ← hpower]
      rfl
    · have hrounds := rounds_mul .positive .positive (-k) (d.natAbs - j) hm hp
        (.inl (le_log2_mul hfull hp))
      have hpositive : (10 : ℚ) ^ d.natAbs = 10 ^ d := by
        rw [← zpow_natCast, Int.natAbs_of_nonneg (not_lt.1 hd)]
      rw [cast_mul_two_pow, cast_powerOfTen, hpositive] at hrounds
      refine ⟨_, hrounds, ?_⟩
      rw [if_neg (by simpa using hd), mul_def, hunpack, ← hpower]
      rfl
  · exact ⟨_, rounds_ofScientific hn hlow hhigh, ofDecimal_of_not_fast hfast⟩

end Binary64

namespace Decimal

open Float.Model.UnpackedFloat Binary64

section Interval

variable {m n : ℕ} {e d : ℤ}

theorem two_zpow_le_ten_zpow {z : ℤ} (hz : 0 ≤ z) : (2 : ℚ) ^ z ≤ 10 ^ z :=
  zpow_le_zpow_left₀ hz zero_le_two (by norm_num)

/-- The number of bits bounds the exponent of a decimal from below. -/
theorem neg_le_exponent {z : ℤ} (hz : 0 ≤ z) (h : (2 : ℚ) ^ (-z) ≤ n * 10 ^ d) :
    -(z + 1 + n.log2) ≤ d := by
  have hten : (10 : ℚ) ^ (-z) ≤ 2 ^ (-z) := by
    rw [zpow_neg, zpow_neg]
    exact inv_anti₀ (two_zpow_pos z) (two_zpow_le_ten_zpow hz)
  have hbits : (n : ℚ) ≤ 10 ^ ((n.log2 + 1 : ℕ) : ℤ) := by
    refine le_trans ?_ (two_zpow_le_ten_zpow (Int.natCast_nonneg _))
    rw [zpow_natCast]
    exact_mod_cast Nat.lt_log2_self.le
  have hpower : (10 : ℚ) ^ (-z) ≤ 10 ^ ((n.log2 + 1 : ℕ) + d : ℤ) := by
    rw [zpow_add₀ (by norm_num)]
    exact (hten.trans h).trans (mul_le_mul_of_nonneg_right hbits (ten_zpow_pos d).le)
  have := (zpow_le_zpow_iff_right₀ (by norm_num)).1 hpower
  omega

theorem exponent_le (hn : 0 < n) {z : ℤ} (hz : 0 ≤ z) (h : n * 10 ^ d ≤ (2 : ℚ) ^ z) : d ≤ z := by
  have hone : (1 : ℚ) ≤ n := by exact_mod_cast hn
  have hpower : (10 : ℚ) ^ d ≤ 10 ^ z :=
    (le_mul_of_one_le_left (ten_zpow_pos d).le hone).trans (h.trans (two_zpow_le_ten_zpow hz))
  exact (zpow_le_zpow_iff_right₀ (by norm_num)).1 hpower

/-- A decimal in the interval of a float is read as the float. -/
theorem ofDecimal_of_holds (hm : IsCanonical m e) (he : e ≤ 971) (hpos : 0 < m)
    (h : (RoundingInterval.ofFloat m e).Holds (n * 10 ^ d)) :
    (Scalar.ofDecimal n d : Float) = Binary64.pack (.finite .positive m e hpos) := by
  have hleast : (2 : ℚ) ^ (-1075 : ℤ) ≤ n * 10 ^ d := by
    have hone : (1 : ℚ) ≤ m := by exact_mod_cast hpos
    have hhalf : (1 / 2 : ℚ) ≤ n * 10 ^ d / 2 ^ e := by linarith [h.sub_half_le_div hpos]
    rw [le_div_iff₀ (two_zpow_pos e)] at hhalf
    refine le_trans ?_ hhalf
    calc (2 : ℚ) ^ (-1075 : ℤ) = 1 / 2 * 2 ^ (-1074 : ℤ) := half_two_zpow
      _ ≤ 1 / 2 * 2 ^ e := mul_le_mul_of_nonneg_left
          (zpow_le_zpow_right₀ one_le_two hm.le_exponent) (by norm_num)
  have hmost : (n * 10 ^ d : ℚ) ≤ 2 ^ (1024 : ℤ) := by
    have hmantissa : (m : ℚ) + 1 / 2 ≤ 2 ^ (53 : ℤ) := by
      have hlt : (m : ℚ) ≤ 9007199254740991 := by exact_mod_cast Nat.le_pred_of_lt hm.lt_two_pow
      have hbits : (2 : ℚ) ^ (53 : ℤ) = 9007199254740992 := by norm_num
      rw [hbits]
      linarith
    have hquotient := h.div_le_high.trans hmantissa
    rw [div_le_iff₀ (two_zpow_pos e), ← zpow_add₀ two_ne_zero] at hquotient
    exact hquotient.trans (zpow_le_zpow_right₀ one_le_two (by omega))
  have hn : 0 < n := by
    rw [← Nat.cast_pos (α := ℚ)]
    exact pos_of_mul_pos_left ((two_zpow_pos _).trans_le hleast) (ten_zpow_pos d).le
  have hlow := neg_le_exponent (by decide) hleast
  have hhigh := exponent_le hn (by decide) hmost
  obtain ⟨u, hu, hread⟩ := rounds_ofDecimal (d := d) hn (by omega) (by omega)
  rw [hread, RoundingInterval.eq_of_rounds hm hpos h hu]

end Interval

end Decimal

end SheetCut
