import Mathlib
import SheetCut.Proofs.Binary64.Order

/-!
# Rounding of binary64

A product or quotient of floats is the float nearest to the exact one, an even mantissa if two are
equally near. The mantissa is shifted with two bits that tell how it continues, so that it is
rounded only once.
-/

namespace SheetCut.Binary64

open Float.Model Float.Model.UnpackedFloat

structure IsNearest (n : ℕ) (y : ℚ) : Prop where
  le_add_half : (n : ℚ) ≤ y + 1 / 2
  sub_half_le : y - 1 / 2 ≤ n
  even_of_eq_add_half : (n : ℚ) = y + 1 / 2 → n % 2 = 0
  even_of_eq_sub_half : (n : ℚ) = y - 1 / 2 → n % 2 = 0

/-- What a mantissa with its two residual bits tells about a number: the mantissa is the number
without its fraction, and the bits compare the fraction with zero and with a half. -/
def Describes : ExtendedMantissa → ℚ → Prop
  | ⟨m, false, false⟩, y => y = m
  | ⟨m, false, true⟩, y => m < y ∧ y < m + 1 / 2
  | ⟨m, true, false⟩, y => y = m + 1 / 2
  | ⟨m, true, true⟩, y => m + 1 / 2 < y ∧ y < m + 1

section Nearest

variable {n k : ℕ} {y : ℚ}

theorem IsNearest.le_of_le (h : IsNearest n y) (hy : y ≤ k) : n ≤ k := by
  have hlt : (n : ℚ) < k + 1 := by linarith [h.le_add_half]
  exact Nat.lt_succ_iff.1 (by exact_mod_cast hlt)

theorem IsNearest.ge_of_ge (h : IsNearest n y) (hy : k ≤ y) : k ≤ n := by
  have hlt : (k : ℚ) < n + 1 := by linarith [h.sub_half_le]
  exact Nat.lt_succ_iff.1 (by exact_mod_cast hlt)

/-- No other number is as near. -/
theorem IsNearest.eq (h : IsNearest n y) (hk : IsNearest k y) : n = k := by
  have hle : (n : ℚ) ≤ k + 1 := by linarith [h.le_add_half, hk.sub_half_le]
  have hge : (k : ℚ) ≤ n + 1 := by linarith [hk.le_add_half, h.sub_half_le]
  have hle' : n ≤ k + 1 := by exact_mod_cast hle
  have hge' : k ≤ n + 1 := by exact_mod_cast hge
  by_contra hne
  rcases Nat.lt_or_gt_of_ne hne with hlt | hgt
  · have hk' : (k : ℚ) = n + 1 := by exact_mod_cast (show k = n + 1 by omega)
    have heven := h.even_of_eq_sub_half (by linarith [hk.le_add_half, h.sub_half_le])
    have heven' := hk.even_of_eq_add_half (by linarith [hk.le_add_half, h.sub_half_le])
    omega
  · have hn' : (n : ℚ) = k + 1 := by exact_mod_cast (show n = k + 1 by omega)
    have heven := h.even_of_eq_add_half (by linarith [h.le_add_half, hk.sub_half_le])
    have heven' := hk.even_of_eq_sub_half (by linarith [h.le_add_half, hk.sub_half_le])
    omega

end Nearest

section Residual

variable {em : ExtendedMantissa} {y : ℚ}

theorem Describes.shiftRightOne (h : Describes em y) : Describes em.shiftRightOne (y / 2) := by
  obtain ⟨m, r, s⟩ := em
  have hparts : (m : ℚ) = 2 * (m / 2 : ℕ) + (m % 2 : ℕ) := by
    exact_mod_cast (Nat.div_add_mod m 2).symm
  rcases Nat.mod_two_eq_zero_or_one m with hm | hm
  · -- The bit that is shifted out is zero, so at most a sticky bit is left of the fraction.
    have hbit : (m % 2 != 0) = false := by rw [hm]; rfl
    rw [hm, Nat.cast_zero, add_zero] at hparts
    rw [ExtendedMantissa.shiftRightOne, hbit]
    cases r <;> cases s <;> simp only [Describes, Bool.or_true, Bool.or_false] at h ⊢
    · linarith
    · constructor <;> linarith
    · constructor <;> linarith
    · constructor <;> linarith
  · have hbit : (m % 2 != 0) = true := by rw [hm]; rfl
    rw [hm, Nat.cast_one] at hparts
    rw [ExtendedMantissa.shiftRightOne, hbit]
    cases r <;> cases s <;> simp only [Describes, Bool.or_true, Bool.or_false] at h ⊢
    · linarith
    · constructor <;> linarith
    · constructor <;> linarith
    · constructor <;> linarith

theorem Describes.shiftRight (h : Describes em y) (k : ℕ) : Describes (em >>> k) (y / 2 ^ k) := by
  induction k with
  | zero =>
    rw [pow_zero, div_one]
    exact h
  | succ k ih =>
    rw [pow_succ, ← div_div]
    exact ih.shiftRightOne

theorem Describes.isNearest (h : Describes em y) : IsNearest em.roundedMantissa y := by
  obtain ⟨m, r, s⟩ := em
  cases r <;> cases s <;> simp only [Describes] at h
  · show IsNearest m y
    constructor <;> first | linarith | (intro heq; linarith)
  · show IsNearest m y
    constructor <;> first | linarith | (intro heq; linarith)
  · show IsNearest (m + m % 2) y
    rcases Nat.mod_two_eq_zero_or_one m with hm | hm
    · rw [hm, add_zero]
      exact ⟨by linarith, by linarith, fun _ => hm, fun _ => hm⟩
    · rw [hm]
      refine ⟨?_, ?_, fun _ => by omega, fun _ => by omega⟩ <;> push_cast <;> linarith
  · show IsNearest (m + 1) y
    constructor <;> push_cast <;> first | linarith | (intro heq; linarith)

end Residual

/-! ### The exponent of a number -/

/-- The exponent at which numbers of the size of `x` are written: 53 bits in front of it suffice,
and all of them are in use unless it is the least one. -/
structure IsExponent (x : ℚ) (t : ℤ) : Prop where
  le_exponent : -1074 ≤ t
  lt_two_zpow : x < 2 ^ (53 + t)
  isFull : 2 ^ (52 + t) ≤ x ∨ t = -1074

/-- The number with the sign `s` that is nearest to `x`. It may lie beyond the largest float. -/
def Rounds (s : Sign) (x : ℚ) (u : UnpackedFloat) : Prop :=
  ∃ (n : ℕ) (t : ℤ), IsExponent x t ∧ IsNearest n (x / 2 ^ t) ∧
    (n = 0 ∧ u = .zero s ∨ ∃ m e hpos, u = .finite s m e hpos ∧ IsCanonical m e ∧
      (m : ℚ) * 2 ^ e = n * 2 ^ t)

section Exponents

variable {x : ℚ} {t : ℤ} {m n : ℕ} {e : ℤ}

theorem two_zpow_pos (e : ℤ) : (0 : ℚ) < 2 ^ e := zpow_pos two_pos e

theorem IsExponent.eq (h : IsExponent x t) {u : ℤ} (hu : IsExponent x u) : t = u := by
  have hlt : ∀ {t u : ℤ}, IsExponent x t → IsExponent x u → ¬t < u := by
    intro t u ht hu hlt
    rcases hu.isFull with hfull | hleast
    · have hexp := (zpow_lt_zpow_iff_right₀ one_lt_two).1 (hfull.trans_lt ht.lt_two_zpow)
      omega
    · have := ht.le_exponent
      omega
  exact le_antisymm (not_lt.1 (hlt hu h)) (not_lt.1 (hlt h hu))

theorem targetExponent_eq (m : ℕ) (e : ℤ) :
    Format.binary64.targetExponent (totalExponent m e) = max (m.log2 + e - 52) (-1074) := by
  show max ((m.log2 : ℤ) + 1 + e - 53) (-1074) = _
  congr 1
  omega

/-- The exponent is that of the truncated number, which may only be zero below the least float. -/
theorem isExponent_targetExponent (hbits : 0 < m ∨ e ≤ -1074) (hlow : m * 2 ^ e ≤ x)
    (hhigh : x < (m + 1) * 2 ^ e) :
    IsExponent x (Format.binary64.targetExponent (totalExponent m e)) := by
  have hmost : x < (2 : ℚ) ^ (m.log2 + 1 + e) := by
    have hlog : ((m + 1 : ℕ) : ℚ) ≤ (2 ^ (m.log2 + 1) : ℕ) := by exact_mod_cast Nat.lt_log2_self
    push_cast at hlog
    rw [zpow_add₀ two_ne_zero, ← Nat.cast_succ, zpow_natCast]
    exact hhigh.trans_le (mul_le_mul_of_nonneg_right hlog (two_zpow_pos e).le)
  rw [targetExponent_eq]
  refine ⟨le_max_right _ _, hmost.trans_le (zpow_le_zpow_right₀ one_le_two (by omega)), ?_⟩
  rcases le_or_gt (m.log2 + e - 52 : ℤ) (-1074) with hle | hgt
  · exact .inr (max_eq_right hle)
  · left
    have hpos : m ≠ 0 := by
      rintro rfl
      rw [Nat.log2_zero] at hgt
      omega
    have hlog : ((2 ^ m.log2 : ℕ) : ℚ) ≤ m := by exact_mod_cast Nat.log2_self_le hpos
    push_cast at hlog
    have hsplit : (52 : ℤ) + (m.log2 + e - 52) = m.log2 + e := by omega
    rw [max_eq_left hgt.le, hsplit, zpow_add₀ two_ne_zero, zpow_natCast]
    exact (mul_le_mul_of_nonneg_right hlog (two_zpow_pos e).le).trans hlow

/-- A rounded mantissa has 53 bits, or one more if all of them carry. -/
theorem IsExponent.le_two_pow (h : IsExponent x t) (hn : IsNearest n (x / 2 ^ t)) : n ≤ 2 ^ 53 := by
  apply hn.le_of_le
  rw [div_le_iff₀ (two_zpow_pos t)]
  have hsplit : (2 : ℚ) ^ (53 + t) = ((2 ^ 53 : ℕ) : ℚ) * 2 ^ t := by
    rw [zpow_add₀ two_ne_zero]
    norm_num
  exact hsplit ▸ h.lt_two_zpow.le

theorem IsExponent.two_pow_le (h : IsExponent x t) (hn : IsNearest n (x / 2 ^ t)) :
    2 ^ 52 ≤ n ∨ t = -1074 := by
  refine h.isFull.imp_left fun hfull => hn.ge_of_ge ?_
  rw [le_div_iff₀ (two_zpow_pos t)]
  have hsplit : (2 : ℚ) ^ (52 + t) = ((2 ^ 52 : ℕ) : ℚ) * 2 ^ t := by
    rw [zpow_add₀ two_ne_zero]
    norm_num
  exact hsplit ▸ hfull

end Exponents

/-! ### Rounding a mantissa -/

section Rounding

variable {x : ℚ} {t : ℤ} {m n : ℕ} {e : ℤ} {acc : Accuracy} {s : Sign}

theorem shiftToTargetExponent_of_lt (hlt : n < 2 ^ 53) (ht : -1074 ≤ t) :
    shiftToTargetExponent Format.binary64 n t .exact = (⟨n, false, false⟩, t) := by
  have hlog : n.log2 ≤ 52 := by
    rcases Nat.eq_zero_or_pos n with rfl | hpos
    · decide
    · exact Nat.le_of_lt_succ ((Nat.log2_lt hpos.ne').2 hlt)
  have hshift : (max (n.log2 + t - 52) (-1074) - t).toNat = 0 := by omega
  rw [shiftToTargetExponent, targetExponent_eq, shiftToExponent, hshift]
  exact Prod.ext rfl (add_zero t)

theorem shiftToTargetExponent_carry (ht : -1074 ≤ t) :
    shiftToTargetExponent Format.binary64 (2 ^ 53) t .exact = (⟨2 ^ 52, false, false⟩, t + 1) := by
  have hshift : (max ((2 ^ 53 : ℕ).log2 + t - 52) (-1074) - t).toNat = 1 := by
    rw [Nat.log2_two_pow]
    omega
  rw [shiftToTargetExponent, targetExponent_eq, shiftToExponent, hshift]
  rfl

theorem Describes.bounds (h : Describes (.ofMantissaAndAccuracy m acc) x) : m ≤ x ∧ x < m + 1 := by
  cases acc with
  | exact =>
    have hx : x = m := h
    exact ⟨hx.ge, by linarith⟩
  | inexact o =>
    cases o with
    | lt =>
      obtain ⟨hlow, hhigh⟩ : m < x ∧ x < m + 1 / 2 := h
      exact ⟨hlow.le, by linarith⟩
    | eq =>
      have hx : x = m + 1 / 2 := h
      constructor <;> linarith
    | gt =>
      obtain ⟨hlow, hhigh⟩ : m + 1 / 2 < x ∧ x < m + 1 := h
      exact ⟨by linarith, hhigh⟩

/-- Rounding gives the nearest number, provided that no bits are missing in front of its
exponent. -/
theorem rounds_roundWithAccuracy (s : Sign) (hbits : 0 < m ∨ e ≤ -1074)
    (hx : Describes (.ofMantissaAndAccuracy m acc) (x / 2 ^ e))
    (he : e ≤ Format.binary64.targetExponent (totalExponent m e)) :
    Rounds s x (roundWithAccuracy Format.binary64 s m e acc) := by
  have hbounds := hx.bounds
  rw [le_div_iff₀ (two_zpow_pos e), div_lt_iff₀ (two_zpow_pos e)] at hbounds
  have ht := isExponent_targetExponent hbits hbounds.1 hbounds.2
  generalize htarget : Format.binary64.targetExponent (totalExponent m e) = t at he ht
  have hshift := hx.shiftRight (t - e).toNat
  rw [div_div, ← zpow_natCast, ← zpow_add₀ two_ne_zero, Int.toNat_sub_of_le he,
    add_sub_cancel] at hshift
  have hfirst : shiftToTargetExponent Format.binary64 m e acc =
      (ExtendedMantissa.ofMantissaAndAccuracy m acc >>> (t - e).toNat, t) := by
    rw [shiftToTargetExponent, htarget, shiftToExponent, Int.toNat_sub_of_le he, add_sub_cancel]
  have hnearest := hshift.isNearest
  obtain ⟨n, hn⟩ : ∃ n, (ExtendedMantissa.ofMantissaAndAccuracy m acc >>>
      (t - e).toNat).roundedMantissa = n := ⟨_, rfl⟩
  rw [hn] at hnearest
  rw [roundWithAccuracy]
  refine ⟨n, t, ht, hnearest, ?_⟩
  rcases (ht.le_two_pow hnearest).lt_or_eq with hlt | hcarry
  · simp only [hfirst, hn, shiftToTargetExponent_of_lt hlt ht.le_exponent]
    by_cases hzero : n = 0
    · exact .inl ⟨hzero, dif_pos hzero⟩
    · exact .inr ⟨n, t, Nat.pos_of_ne_zero hzero, dif_neg hzero,
        ⟨hlt, ht.le_exponent, ht.two_pow_le hnearest⟩, rfl⟩
  · subst hcarry
    simp only [hfirst, hn, shiftToTargetExponent_carry ht.le_exponent]
    refine .inr ⟨2 ^ 52, t + 1, by decide, dif_neg (by decide),
      ⟨by decide, ht.le_exponent.trans (Int.le_add_one le_rfl), .inl le_rfl⟩, ?_⟩
    rw [zpow_add_one₀ two_ne_zero]
    push_cast
    ring

/-- The remainder of a division tells how its quotient continues. -/
theorem describes_div (a : ℕ) {b : ℕ} (hb : 0 < b) :
    Describes (.ofMantissaAndAccuracy (a / b) (accuracyOfFraction (a % b) b)) (a / b) := by
  have hb' : (0 : ℚ) < b := Nat.cast_pos.2 hb
  have hparts : (a : ℚ) / b = (a / b : ℕ) + (a % b : ℕ) / b := by
    have hsum : (a : ℚ) = b * (a / b : ℕ) + (a % b : ℕ) := by
      exact_mod_cast (Nat.div_add_mod a b).symm
    rw [div_eq_iff hb'.ne', add_mul, div_mul_cancel₀ _ hb'.ne', mul_comm, ← hsum]
  have hlt : ((a % b : ℕ) : ℚ) / b < 1 := by
    rw [div_lt_one hb']
    exact_mod_cast Nat.mod_lt a hb
  rw [hparts, accuracyOfFraction]
  by_cases hzero : a % b = 0
  · rw [if_pos hzero, hzero, Nat.cast_zero, zero_div, add_zero]
    exact rfl
  have hpos : (0 : ℚ) < (a % b : ℕ) / b :=
    div_pos (Nat.cast_pos.2 (Nat.pos_of_ne_zero hzero)) hb'
  rw [if_neg hzero]
  cases hcompare : compare (2 * (a % b)) b with
  | lt =>
    have hhalf : ((2 * (a % b) : ℕ) : ℚ) < b := by exact_mod_cast compare_lt_iff_lt.1 hcompare
    push_cast at hhalf
    have hless : ((a % b : ℕ) : ℚ) / b < 1 / 2 := (div_lt_iff₀ hb').2 (by linarith)
    exact ⟨by linarith, by linarith⟩
  | eq =>
    have hhalf : ((2 * (a % b) : ℕ) : ℚ) = b := by exact_mod_cast compare_eq_iff_eq.1 hcompare
    push_cast at hhalf
    have hsame : ((a % b : ℕ) : ℚ) / b = 1 / 2 := (div_eq_iff hb'.ne').2 (by linarith)
    show ((a / b : ℕ) : ℚ) + _ = (a / b : ℕ) + 1 / 2
    rw [hsame]
  | gt =>
    have hhalf : (b : ℚ) < (2 * (a % b) : ℕ) := by exact_mod_cast compare_gt_iff_gt.1 hcompare
    push_cast at hhalf
    have hmore : (1 / 2 : ℚ) < (a % b : ℕ) / b := (lt_div_iff₀ hb').2 (by linarith)
    exact ⟨by linarith, by linarith⟩

end Rounding

section Operations

variable {m₁ m₂ : ℕ}

theorem rounds_mul (s₁ s₂ : Sign) (e₁ e₂ : ℤ) (h₁ : 0 < m₁) (h₂ : 0 < m₂)
    (hbits : 52 ≤ (m₁ * m₂).log2 ∨ e₁ + e₂ ≤ -1074) :
    Rounds (s₁ * s₂) (m₁ * 2 ^ e₁ * (m₂ * 2 ^ e₂))
      (UnpackedFloat.mul Format.binary64 (.finite s₁ m₁ e₁ h₁) (.finite s₂ m₂ e₂ h₂)) := by
  have hexact : (m₁ * 2 ^ e₁ * (m₂ * 2 ^ e₂) / 2 ^ (e₁ + e₂) : ℚ) = (m₁ * m₂ : ℕ) := by
    rw [zpow_add₀ two_ne_zero, mul_mul_mul_comm,
      mul_div_cancel_right₀ _ (mul_pos (two_zpow_pos e₁) (two_zpow_pos e₂)).ne', Nat.cast_mul]
  refine rounds_roundWithAccuracy _ (.inl (Nat.mul_pos h₁ h₂)) hexact ?_
  rw [targetExponent_eq]
  omega

/-- Division shifts the dividend so far that the quotient has 53 bits. -/
theorem rounds_div (s₁ s₂ : Sign) (e₁ e₂ : ℤ) (h₁ : 0 < m₁) (h₂ : 0 < m₂) :
    Rounds (s₁ / s₂) (m₁ * 2 ^ e₁ / (m₂ * 2 ^ e₂))
      (UnpackedFloat.div Format.binary64 (.finite s₁ m₁ e₁ h₁) (.finite s₂ m₂ e₂ h₂)) := by
  have htarget : Format.binary64.targetExponent (totalExponent m₁ e₁ - totalExponent m₂ e₂) =
      max (m₁.log2 + e₁ - (m₂.log2 + e₂) - 53) (-1074) := by
    show max ((m₁.log2 : ℤ) + 1 + e₁ - (m₂.log2 + 1 + e₂) - 53) (-1074) = _
    congr 1
    omega
  rw [UnpackedFloat.div, divCore, htarget]
  obtain ⟨t, ht⟩ : ∃ t, min (e₁ - e₂) (max (m₁.log2 + e₁ - (m₂.log2 + e₂) - 53) (-1074)) = t :=
    ⟨_, rfl⟩
  obtain ⟨k, hk⟩ : ∃ k : ℕ, e₁ - e₂ - t = k := ⟨(e₁ - e₂ - t).toNat, by omega⟩
  have hpower : (2 : ℚ) ^ e₁ = 2 ^ k * 2 ^ t * 2 ^ e₂ := by
    rw [← zpow_natCast, ← zpow_add₀ two_ne_zero, ← zpow_add₀ two_ne_zero]
    congr 1
    omega
  have hexact : (m₁ * 2 ^ e₁ / (m₂ * 2 ^ e₂) / 2 ^ t : ℚ) = (m₁ * 2 ^ k : ℕ) / m₂ := by
    have h₂' : (m₂ : ℚ) ≠ 0 := Nat.cast_ne_zero.2 h₂.ne'
    have ht' := (two_zpow_pos t).ne'
    have he' := (two_zpow_pos e₂).ne'
    rw [hpower]
    push_cast
    field_simp
  simp only [ht, hk, Int.toNat_natCast, Nat.shiftLeft_eq]
  have hfull : t ≤ -1074 ∨ 2 ^ 52 ≤ m₁ * 2 ^ k / m₂ := by
    refine or_iff_not_imp_left.2 fun hleast => ?_
    have hlogs : m₂.log2 + 1 + 52 ≤ m₁.log2 + k := by omega
    rw [Nat.le_div_iff_mul_le h₂]
    calc 2 ^ 52 * m₂ ≤ 2 ^ 52 * 2 ^ (m₂.log2 + 1) := Nat.mul_le_mul_left _ Nat.lt_log2_self.le
      _ = 2 ^ (m₂.log2 + 1 + 52) := by rw [mul_comm, ← pow_add]
      _ ≤ 2 ^ (m₁.log2 + k) := Nat.pow_le_pow_right two_pos hlogs
      _ = 2 ^ m₁.log2 * 2 ^ k := pow_add _ _ _
      _ ≤ m₁ * 2 ^ k := Nat.mul_le_mul_right _ (Nat.log2_self_le h₁.ne')
  refine rounds_roundWithAccuracy _ ?_ (hexact ▸ describes_div _ h₂) ?_
  · exact hfull.symm.imp_left fun hle => Nat.lt_of_lt_of_le (Nat.two_pow_pos 52) hle
  · rw [targetExponent_eq]
    rcases hfull with hleast | hle
    · exact hleast.trans (le_max_right _ _)
    · have hpos := Nat.lt_of_lt_of_le (Nat.two_pow_pos 52) hle
      have hlog := (Nat.le_log2 hpos.ne').2 hle
      omega

end Operations

section Sizes

variable {m n : ℕ} {e f t : ℤ} {x : ℚ} {s : Sign} {u : UnpackedFloat}

theorem IsCanonical.lt_of_exponent_lt (hm : IsCanonical m e) (hn : IsCanonical n f) (h : e < f) :
    (m : ℚ) * 2 ^ e < n * 2 ^ f := by
  have hfull : ((2 ^ 52 : ℕ) : ℚ) ≤ n := by
    refine Nat.cast_le.2 (hn.isFull.resolve_right ?_)
    have := hm.le_exponent
    omega
  have hlt : (m : ℚ) < (2 ^ 53 : ℕ) := Nat.cast_lt.2 hm.lt_two_pow
  calc (m : ℚ) * 2 ^ e < (2 ^ 53 : ℕ) * 2 ^ e := mul_lt_mul_of_pos_right hlt (two_zpow_pos e)
    _ = (2 ^ 52 : ℕ) * 2 ^ (e + 1) := by
      rw [zpow_add_one₀ two_ne_zero]
      push_cast
      ring
    _ ≤ (2 ^ 52 : ℕ) * 2 ^ f :=
      mul_le_mul_of_nonneg_left (zpow_le_zpow_right₀ one_le_two h) (Nat.cast_nonneg _)
    _ ≤ n * 2 ^ f := mul_le_mul_of_nonneg_right hfull (two_zpow_pos f).le

/-- A number has one mantissa and one exponent only. -/
theorem IsCanonical.eq (hm : IsCanonical m e) (hn : IsCanonical n f)
    (h : (m : ℚ) * 2 ^ e = n * 2 ^ f) : m = n ∧ e = f := by
  have hexponent : e = f := by
    rcases lt_trichotomy e f with hlt | heq | hgt
    · exact absurd h (hm.lt_of_exponent_lt hn hlt).ne
    · exact heq
    · exact absurd h (hn.lt_of_exponent_lt hm hgt).ne'
  subst hexponent
  exact ⟨Nat.cast_injective (mul_right_cancel₀ (two_zpow_pos e).ne' h), rfl⟩

/-- Floats are in the order of their sizes. -/
theorem IsCanonical.rank_le (hm : IsCanonical m e) (hn : IsCanonical n f) (hmpos : 0 < m)
    (hnpos : 0 < n) (h : (m : ℚ) * 2 ^ e ≤ n * 2 ^ f) :
    rank (.finite .positive m e hmpos) ≤ rank (.finite .positive n f hnpos) := by
  rcases lt_trichotomy e f with hlt | rfl | hgt
  · simp [rank, Prod.Lex.toLex_le_toLex, hlt]
  · have hle : (m : ℚ) ≤ n := le_of_mul_le_mul_right h (two_zpow_pos e)
    simpa [rank, Prod.Lex.toLex_le_toLex] using hle
  · exact absurd h (hn.lt_of_exponent_lt hm hgt).not_ge

/-- Rounding does not exceed a power of two that the number does not exceed. -/
theorem Rounds.le_two_zpow (h : Rounds s x u) {hpos : 0 < m} (hu : u = .finite s m e hpos) {j : ℤ}
    (hj : -1074 ≤ j) (hx : x ≤ 2 ^ j) : (m : ℚ) * 2 ^ e ≤ 2 ^ j := by
  obtain ⟨n, t, ht, hn, hcases⟩ := h
  have htj : t ≤ j := by
    rcases ht.isFull with hfull | hleast
    · have := (zpow_le_zpow_iff_right₀ one_lt_two).1 (hfull.trans hx)
      omega
    · omega
  obtain ⟨k, rfl⟩ : ∃ k : ℕ, j = k + t := ⟨(j - t).toNat, by omega⟩
  have hle : n ≤ 2 ^ k := by
    apply hn.le_of_le
    rw [div_le_iff₀ (two_zpow_pos t)]
    push_cast
    rwa [← zpow_natCast, ← zpow_add₀ two_ne_zero]
  rcases hcases with ⟨-, hzero⟩ | ⟨m', e', hpos', hfinite, -, hvalue⟩
  · rw [hzero] at hu
    cases hu
  · rw [hfinite] at hu
    cases hu
    rw [hvalue, zpow_add₀ two_ne_zero, zpow_natCast]
    exact mul_le_mul_of_nonneg_right (by exact_mod_cast hle) (two_zpow_pos t).le

end Sizes

/-! ### Quotients of positive floats -/

section Quotients

variable {x y : Float}

theorem exists_finite_of_pos (hx : x.isFinite = true) (hpos : 0 < x) :
    ∃ m e hm, unpack x = .finite .positive m e hm := by
  have hzero : unpack 0 = .zero .positive := rfl
  rw [lt_iff, hzero] at hpos
  rcases isFinite_iff.1 hx with ⟨s, h⟩ | ⟨s, m, e, hm, h⟩
  · rw [h] at hpos
    cases hpos
  · cases s with
    | positive => exact ⟨m, e, hm, h⟩
    | negative =>
      rw [h] at hpos
      cases hpos

/-- A quotient of positive floats is a number, which is infinite if it is too large. -/
theorem div_eq_infinity_or_exists_ceil? (hx : x.isFinite = true) (hxpos : 0 < x)
    (hy : y.isFinite = true) (hypos : 0 < y) :
    x / y = 1 / 0 ∨ ∃ n, ceil? (x / y) = some n := by
  obtain ⟨m, e, hm, hux⟩ := exists_finite_of_pos hx hxpos
  obtain ⟨n, f, hn, huy⟩ := exists_finite_of_pos hy hypos
  obtain ⟨k, t, -, -, ⟨-, hzero⟩ | ⟨m', e', hm', hfinite, hcanonical, -⟩⟩ :=
    rounds_div .positive .positive e f hm hn
  · right
    rw [div_def, hux, huy, hzero, ceil?, unpack_pack_zero]
    exact ⟨0, rfl⟩
  · have hunpack := unpack_pack_of_isCanonical (.positive / .positive) hm' hcanonical
    rw [div_def, hux, huy, hfinite]
    split at hunpack
    · right
      rw [ceil?, hunpack]
      exact ⟨_, rfl⟩
    · next he =>
      left
      rw [pack_overflow _ hm' (not_le.1 he)]
      rfl

theorem Rounds.pack_mem_unit {x : ℚ} {u : UnpackedFloat} (h : Rounds .positive x u) (hx : x ≤ 1) :
    0 ≤ pack u ∧ pack u ≤ 1 := by
  have hzero : unpack 0 = .zero .positive := rfl
  obtain ⟨n, t, ht, hn, ⟨-, rfl⟩ | ⟨m, e, hm, rfl, hcanonical, hvalue⟩⟩ := id h
  · exact ⟨by decide, by decide⟩
  have hle : (m : ℚ) * 2 ^ e ≤ 2 ^ (0 : ℤ) := h.le_two_zpow rfl (by decide) (by rwa [zpow_zero])
  have hexponent : e ≤ 0 := by
    have hone : (1 : ℚ) ≤ m := by exact_mod_cast hm
    exact (zpow_le_zpow_iff_right₀ one_lt_two).1
      ((le_mul_of_one_le_left (two_zpow_pos e).le hone).trans hle)
  have hunpack := unpack_pack_of_isCanonical .positive hm hcanonical
  rw [if_pos (by omega)] at hunpack
  have hnumber : IsNumber (pack (.finite .positive m e hm)) := by
    rw [IsNumber, hunpack]
    exact UnpackedFloat.noConfusion
  rw [le_iff_place (isNumber_of_isFinite rfl) hnumber,
    le_iff_place hnumber (isNumber_of_isFinite rfl), place, place, place, hunpack, hzero,
    unpack_one]
  constructor
  · simp [rank, Prod.Lex.toLex_le_toLex]
  · refine hcanonical.rank_le ⟨by decide, by decide, .inl le_rfl⟩ hm (by decide) (hle.trans ?_)
    norm_num

/-- A quotient of natural numbers that is at most one is not rounded to more. -/
theorem natCast_div_mem_unit {k n : ℕ} (hkn : k ≤ n) (hn : 0 < n) (hlt : n < 2 ^ 53) :
    0 ≤ Float.ofNat k / Float.ofNat n ∧ Float.ofNat k / Float.ofNat n ≤ 1 := by
  obtain ⟨i, hi, hun, -⟩ := unpack_ofNat_eq hn hlt
  rcases Nat.eq_zero_or_pos k with rfl | hk
  · rw [show Float.ofNat 0 = 0 from rfl, zero_div_float hun]
    exact ⟨by decide, by decide⟩
  obtain ⟨j, hj, huk, -⟩ := unpack_ofNat_eq hk (hkn.trans_lt hlt)
  have hratio :
      ((k * 2 ^ j : ℕ) * 2 ^ (-j : ℤ) / ((n * 2 ^ i : ℕ) * 2 ^ (-i : ℤ)) : ℚ) = k / n := by
    push_cast
    rw [zpow_neg, zpow_neg, zpow_natCast, zpow_natCast]
    field_simp
  have hle : (k / n : ℚ) ≤ 1 := (div_le_one (Nat.cast_pos.2 hn)).2 (Nat.cast_le.2 hkn)
  have hrounds := rounds_div .positive .positive (-j) (-i) hj hi
  rw [hratio] at hrounds
  have hdiv := div_def (Float.ofNat k) (Float.ofNat n)
  rw [huk, hun] at hdiv
  rw [hdiv]
  exact hrounds.pack_mem_unit hle

end Quotients

end SheetCut.Binary64
