import SheetCut.Decimal.Shortest
import SheetCut.Proofs.Binary64.Rounding

/-!
# Shortest decimals are read back

The decimal that is written for a float lies among the numbers that round to it. One of the grids
that are searched is finer than half the distance of floats, so a decimal is always found.
-/

namespace SheetCut.Decimal

open Float.Model Float.Model.UnpackedFloat Binary64

theorem ten_zpow_pos (d : ℤ) : (0 : ℚ) < 10 ^ d := zpow_pos (by norm_num) d

theorem digitCount_pos (n : ℕ) : 0 < digitCount n := Nat.length_toDigits_pos

theorem lt_ten_pow_digitCount (n : ℕ) : n < 10 ^ digitCount n :=
  (Nat.length_toDigits_le_iff (by decide) (digitCount_pos n)).1 le_rfl

theorem ten_pow_digitCount_le {n : ℕ} (hn : 0 < n) : 10 ^ (digitCount n - 1) ≤ n := by
  rcases Nat.eq_zero_or_pos (digitCount n - 1) with hzero | hpos
  · rw [hzero]
    exact hn
  · rw [← not_lt, ← Nat.length_toDigits_le_iff (by decide) hpos]
    show ¬digitCount n ≤ digitCount n - 1
    omega

theorem cast_digitCount_bounds {n : ℕ} (hn : 0 < n) :
    (10 : ℚ) ^ ((digitCount n : ℤ) - 1) ≤ n ∧ (n : ℚ) + 1 ≤ 10 ^ (digitCount n : ℤ) := by
  have hsplit : (digitCount n : ℤ) - 1 = (digitCount n - 1 : ℕ) := by
    have := digitCount_pos n
    omega
  rw [hsplit, zpow_natCast, zpow_natCast]
  exact ⟨by exact_mod_cast ten_pow_digitCount_le hn, by exact_mod_cast lt_ten_pow_digitCount n⟩

/-- A quotient between two whole numbers. -/
theorem floor_bounds (a : ℕ) {b : ℕ} (hb : 0 < b) :
    ((a / b : ℕ) : ℚ) * b ≤ a ∧ (a : ℚ) < ((a / b : ℕ) + 1) * b := by
  constructor
  · exact_mod_cast Nat.div_mul_le_self a b
  · rw [mul_comm]
    exact_mod_cast Nat.lt_mul_div_succ a hb

/-- The leading digit of a quotient stands at its leading exponent. -/
theorem leadingExponent_bounds {num den : ℕ} (hnum : 0 < num) (hden : 0 < den) :
    (10 : ℚ) ^ leadingExponent num den ≤ num / den ∧
      (num / den : ℚ) < 10 ^ (leadingExponent num den + 1) := by
  have hnum' : (0 : ℚ) < num := Nat.cast_pos.2 hnum
  have hden' : (0 : ℚ) < den := Nat.cast_pos.2 hden
  rw [leadingExponent]
  split
  · next hle =>
    obtain ⟨hlow, hhigh⟩ := cast_digitCount_bounds (Nat.div_pos hle hden)
    obtain ⟨hfloor, hceil⟩ := floor_bounds num hden
    rw [sub_add_cancel, le_div_iff₀ hden', div_lt_iff₀ hden']
    exact ⟨(mul_le_mul_of_nonneg_right hlow hden'.le).trans hfloor,
      hceil.trans_le (mul_le_mul_of_nonneg_right hhigh hden'.le)⟩
  · next hlt =>
    -- Below one it is the quotient of the other way round that has whole digits.
    obtain ⟨hlow, hhigh⟩ := cast_digitCount_bounds (Nat.div_pos (show num ≤ den - 1 by omega) hnum)
    have hfloor : (((den - 1) / num : ℕ) : ℚ) * num < den := by
      exact_mod_cast (Nat.div_mul_le_self (den - 1) num).trans_lt (by omega)
    have hceil : (den : ℚ) ≤ (((den - 1) / num : ℕ) + 1) * num := by
      have hlt := Nat.lt_mul_div_succ (den - 1) hnum
      rw [mul_comm]
      exact_mod_cast (show den ≤ num * ((den - 1) / num + 1) by omega)
    have hexponent : -(digitCount ((den - 1) / num) : ℤ) + 1 =
        -((digitCount ((den - 1) / num) : ℤ) - 1) := by ring
    rw [hexponent, zpow_neg, zpow_neg, inv_le_comm₀ (ten_zpow_pos _) (div_pos hnum' hden'),
      lt_inv_comm₀ (div_pos hnum' hden') (ten_zpow_pos _), inv_div, div_le_iff₀ hnum',
      lt_div_iff₀ hnum']
    exact ⟨hceil.trans (mul_le_mul_of_nonneg_right hhigh hnum'.le),
      (mul_le_mul_of_nonneg_right hlow hnum'.le).trans_lt hfloor⟩

theorem pow_toNat {b : ℚ} (hb : b ≠ 0) (z : ℤ) : b ^ z.toNat = b ^ z * b ^ (-z).toNat := by
  rcases le_total 0 z with hz | hz
  · rw [Int.toNat_of_nonpos (neg_nonpos.2 hz), pow_zero, mul_one, ← zpow_natCast,
      Int.toNat_of_nonneg hz]
  · rw [Int.toNat_of_nonpos hz, pow_zero, ← zpow_natCast, Int.toNat_of_nonneg (neg_nonneg.2 hz),
      ← zpow_add₀ hb, add_neg_cancel, zpow_zero]

namespace RoundingInterval

variable (i : RoundingInterval) (d : ℤ)

theorem cast_scales : ∃ c : ℚ, 0 < c ∧ ((i.scales d).1 : ℚ) = 10 ^ d * c ∧
    ((i.scales d).2 : ℚ) = 2 ^ i.exponent * c := by
  refine ⟨2 ^ (-i.exponent).toNat * 10 ^ (-d).toNat, by positivity, ?_, ?_⟩
  · rw [scales]
    push_cast
    rw [pow_toNat (by norm_num) d]
    ring
  · rw [scales]
    push_cast
    rw [pow_toNat (by norm_num) i.exponent]
    ring

theorem scales_pos : 0 < (i.scales d).1 ∧ 0 < (i.scales d).2 := by
  obtain ⟨c, hc, hstep, hunit⟩ := i.cast_scales d
  constructor
  · rw [← Nat.cast_pos (α := ℚ), hstep]
    exact mul_pos (ten_zpow_pos d) hc
  · rw [← Nat.cast_pos (α := ℚ), hunit]
    exact mul_pos (two_zpow_pos _) hc

variable {i d}

/-- A point of the grid is compared with a number of units on common scales. -/
theorem mul_unit_le_iff {a g : ℕ} :
    a * (i.scales d).2 ≤ g * (i.scales d).1 ↔ (a : ℚ) * 2 ^ i.exponent ≤ g * 10 ^ d := by
  obtain ⟨c, hc, hstep, hunit⟩ := i.cast_scales d
  rw [← Nat.cast_le (α := ℚ), Nat.cast_mul, Nat.cast_mul, hstep, hunit, ← mul_assoc, ← mul_assoc,
    mul_le_mul_iff_left₀ hc]

theorem mul_step_le_iff {a g : ℕ} :
    g * (i.scales d).1 ≤ a * (i.scales d).2 ↔ (g : ℚ) * 10 ^ d ≤ a * 2 ^ i.exponent := by
  obtain ⟨c, hc, hstep, hunit⟩ := i.cast_scales d
  rw [← Nat.cast_le (α := ℚ), Nat.cast_mul, Nat.cast_mul, hstep, hunit, ← mul_assoc, ← mul_assoc,
    mul_le_mul_iff_left₀ hc]

/-- The number is between the ends of the interval, or at one of them if they belong to it. -/
structure Holds (i : RoundingInterval) (y : ℚ) : Prop where
  low_le : i.low * 2 ^ i.exponent ≤ y
  le_high : y ≤ i.high * 2 ^ i.exponent
  closed_of_eq : y = i.low * 2 ^ i.exponent ∨ y = i.high * 2 ^ i.exponent → i.closed = true

theorem contains_iff {g : ℕ} : i.contains d g = true ↔ i.Holds (g * 10 ^ d) := by
  rw [contains]
  cases hclosed : i.closed with
  | true =>
    simp only [if_true, Bool.and_eq_true, decide_eq_true_eq, mul_unit_le_iff, mul_step_le_iff]
    exact ⟨fun h => ⟨h.1, h.2, fun _ => hclosed⟩, fun h => ⟨h.low_le, h.le_high⟩⟩
  | false =>
    simp only [Bool.false_eq_true, if_false, Bool.and_eq_true, decide_eq_true_eq, ← not_le,
      mul_unit_le_iff, mul_step_le_iff]
    constructor
    · rintro ⟨hlow, hhigh⟩
      refine ⟨(not_le.1 hlow).le, (not_le.1 hhigh).le, ?_⟩
      rintro (heq | heq)
      · exact absurd heq.le hlow
      · exact absurd heq.ge hhigh
    · intro h
      have hopen : ¬i.closed = true := by rw [hclosed]; exact Bool.false_ne_true
      exact ⟨fun hle => hopen (h.closed_of_eq (.inl (le_antisymm hle h.low_le))),
        fun hle => hopen (h.closed_of_eq (.inr (le_antisymm h.le_high hle)))⟩

theorem contains_of_nearest? {tie : Tie} {g : ℕ} (h : i.nearest? tie d = some g) :
    i.contains d g = true := by
  rw [nearest?] at h
  dsimp only at h
  split at h
  · cases h
  · next hfloor _ => cases h; exact hfloor
  · next hceil => cases h; exact hceil
  · next hfloor hceil =>
    split_ifs at h
    · cases h; exact hfloor
    · cases h; exact hceil
    · cases tie with
      | up => cases h; exact hceil
      | even =>
        cases h
        rcases Nat.mod_two_eq_zero_or_one (i.middle * (i.scales d).2 / (i.scales d).1) with
          heven | hodd
        · rw [heven]; exact hfloor
        · rw [hodd]; exact hceil

theorem contains_of_lt {g : ℕ} (hlow : i.low * (i.scales d).2 < g * (i.scales d).1)
    (hhigh : g * (i.scales d).1 < i.high * (i.scales d).2) : i.contains d g = true := by
  cases hclosed : i.closed with
  | true => simp [contains, hclosed, hlow.le, hhigh.le]
  | false => simp [contains, hclosed, hlow, hhigh]

/-- A grid that is fine enough has a point between the middle and the upper end. -/
theorem exists_nearest? (tie : Tie) (hlow : i.low < i.middle) (hhigh : i.middle + 2 ≤ i.high)
    (hfine : (i.scales d).1 < 2 * (i.scales d).2) : ∃ g, i.nearest? tie d = some g := by
  obtain ⟨hstep, hunit⟩ := i.scales_pos d
  have hceil : i.contains d (i.middle * (i.scales d).2 / (i.scales d).1 + 1) = true := by
    have habove := Nat.lt_mul_div_succ (i.middle * (i.scales d).2) hstep
    have hbelow := Nat.div_mul_le_self (i.middle * (i.scales d).2) (i.scales d).1
    refine contains_of_lt ?_ ?_
    · rw [mul_comm _ (i.scales d).1]
      exact (Nat.mul_lt_mul_of_pos_right hlow hunit).trans habove
    · calc (i.middle * (i.scales d).2 / (i.scales d).1 + 1) * (i.scales d).1
          = i.middle * (i.scales d).2 / (i.scales d).1 * (i.scales d).1 + (i.scales d).1 :=
            Nat.succ_mul _ _
        _ < i.middle * (i.scales d).2 + 2 * (i.scales d).2 :=
            Nat.add_lt_add_of_le_of_lt hbelow hfine
        _ = (i.middle + 2) * (i.scales d).2 := (Nat.add_mul _ _ _).symm
        _ ≤ i.high * (i.scales d).2 := Nat.mul_le_mul_right _ hhigh
  rw [nearest?]
  dsimp only
  rw [hceil]
  split
  · contradiction
  · exact ⟨_, rfl⟩
  · exact ⟨_, rfl⟩
  · split_ifs
    · exact ⟨_, rfl⟩
    · exact ⟨_, rfl⟩
    · cases tie <;> exact ⟨_, rfl⟩

/-- The search ends at a point in the interval, if one of its grids has such a point. -/
theorem contains_search {tie : Tie} {grids : ℕ} {d : ℤ}
    (h : ∃ k < grids, ∃ g, i.nearest? tie (d - (k : ℤ)) = some g) :
    i.contains (i.search tie grids d).2 (i.search tie grids d).1 = true := by
  induction grids generalizing d with
  | zero =>
    obtain ⟨k, hk, -⟩ := h
    cases hk
  | succ grids ih =>
    rw [search]
    cases hnearest : i.nearest? tie d with
    | some g => exact contains_of_nearest? hnearest
    | none =>
      obtain ⟨k, hk, g, hg⟩ := h
      cases k with
      | zero =>
        rw [Int.natCast_zero, sub_zero, hnearest] at hg
        cases hg
      | succ k =>
        refine ih ⟨k, Nat.lt_of_succ_lt_succ hk, g, ?_⟩
        rw [← hg]
        congr 1
        push_cast
        ring

end RoundingInterval

section Floats

variable {m : ℕ} {e : ℤ}

theorem stripZeros_value (n : ℕ) (d : ℤ) :
    ((stripZeros n d).1 : ℚ) * 10 ^ (stripZeros n d).2 = n * 10 ^ d := by
  induction n, d using stripZeros.induct with
  | case1 d => rw [stripZeros, if_pos rfl]
  | case2 n d hne hten ih =>
    have hn : (n : ℚ) = (n / 10 : ℕ) * 10 := by
      exact_mod_cast (Nat.div_mul_cancel (Nat.dvd_of_mod_eq_zero hten)).symm
    rw [stripZeros, if_neg hne, if_pos hten, ih, zpow_add_one₀ (by norm_num), hn]
    ring
  | case3 n d hne hten => rw [stripZeros, if_neg hne, if_neg hten]

/-- Seventeen digits behind the leading one make a grid finer than half the distance of floats. -/
theorem ten_zpow_lt (hlt : m < 2 ^ 53) {lead : ℤ} (hlead : (10 : ℚ) ^ lead ≤ m * 2 ^ e) :
    (10 : ℚ) ^ (lead - 17) < 2 * 2 ^ (e - 2) := by
  have hm : (m : ℚ) < 2 ^ 53 := by exact_mod_cast hlt
  rw [zpow_sub₀ (by norm_num), zpow_sub₀ two_ne_zero, div_lt_iff₀ (by norm_num)]
  have hpower := two_zpow_pos e
  have hbound : (m : ℚ) * 2 ^ e < 2 ^ 53 * 2 ^ e := mul_lt_mul_of_pos_right hm hpower
  norm_num at hbound ⊢
  linarith

/-- The shortest decimal of a float is among the numbers that round to it. -/
theorem holds_shortest (tie : Tie) (hpos : 0 < m) (hlt : m < 2 ^ 53) :
    (RoundingInterval.ofFloat m e).Holds
      ((shortest tie m e).1 * 10 ^ (shortest tie m e).2) := by
  have hvalue : ((m * 2 ^ e.toNat : ℕ) / (2 ^ (-e).toNat : ℕ) : ℚ) = m * 2 ^ e := by
    push_cast
    rw [pow_toNat two_ne_zero, ← mul_assoc, mul_div_cancel_right₀ _ (by positivity)]
  obtain ⟨hlead, -⟩ := leadingExponent_bounds (Nat.mul_pos hpos (Nat.two_pow_pos e.toNat))
    (Nat.two_pow_pos (-e).toNat)
  rw [hvalue] at hlead
  rw [shortest]
  dsimp only
  rw [stripZeros_value, ← RoundingInterval.contains_iff]
  refine RoundingInterval.contains_search ⟨18, by decide, ?_⟩
  refine RoundingInterval.exists_nearest? tie ?_ (by exact le_rfl) ?_
  · show 4 * m - (if m = 1 <<< 52 ∧ -1074 < e then 1 else 2) < 4 * m
    split <;> omega
  · have hgrid : ∀ lead : ℤ, lead + 1 - (18 : ℕ) = lead - 17 := fun lead => by omega
    rw [hgrid, ← not_le, ← one_mul (RoundingInterval.scales _ _).1,
      RoundingInterval.mul_unit_le_iff, Nat.cast_one, one_mul, Nat.cast_ofNat, not_le]
    exact ten_zpow_lt hlt hlead

end Floats

namespace RoundingInterval

section Rounding

variable {m : ℕ} {e : ℤ} {y : ℚ} {s : Sign} {u : UnpackedFloat}

/-- The lower end, in quarters of the distance to the next float. -/
theorem cast_low (hpos : 0 < m) :
    ((ofFloat m e).low : ℚ) = 4 * m - if m = 2 ^ 52 ∧ -1074 < e then 1 else 2 := by
  show ((4 * m - (if m = 2 ^ 52 ∧ -1074 < e then 1 else 2) : ℕ) : ℚ) = _
  rw [Nat.cast_sub (by split <;> omega)]
  push_cast
  rfl

theorem mul_two_zpow_exponent (a : ℕ) (m : ℕ) (e : ℤ) :
    (a : ℚ) * 2 ^ (ofFloat m e).exponent = a / 4 * 2 ^ e := by
  show (a : ℚ) * 2 ^ (e - 2) = _
  rw [zpow_sub₀ two_ne_zero]
  ring

theorem Holds.low_le_div (h : (ofFloat m e).Holds y) : ((ofFloat m e).low : ℚ) / 4 ≤ y / 2 ^ e := by
  rw [le_div_iff₀ (two_zpow_pos e), ← mul_two_zpow_exponent]
  exact h.low_le

theorem Holds.div_le_high (h : (ofFloat m e).Holds y) : y / 2 ^ e ≤ m + 1 / 2 := by
  rw [div_le_iff₀ (two_zpow_pos e)]
  refine h.le_high.trans_eq ?_
  rw [mul_two_zpow_exponent]
  show ((4 * m + 2 : ℕ) : ℚ) / 4 * 2 ^ e = _
  push_cast
  ring

theorem Holds.even (h : (ofFloat m e).Holds y)
    (hy : y / 2 ^ e = (ofFloat m e).low / 4 ∨ y / 2 ^ e = m + 1 / 2) : m % 2 = 0 := by
  have hhigh : (((ofFloat m e).high : ℕ) : ℚ) / 4 = m + 1 / 2 := by
    show ((4 * m + 2 : ℕ) : ℚ) / 4 = _
    push_cast
    ring
  refine of_decide_eq_true (h.closed_of_eq ?_)
  rwa [mul_two_zpow_exponent, mul_two_zpow_exponent, hhigh, ← div_eq_iff (two_zpow_pos e).ne',
    ← div_eq_iff (two_zpow_pos e).ne']

theorem Holds.sub_half_le_div (h : (ofFloat m e).Holds y) (hpos : 0 < m) :
    (m : ℚ) - 1 / 2 ≤ y / 2 ^ e := by
  have hlow := h.low_le_div
  rw [cast_low hpos] at hlow
  split at hlow <;> linarith

theorem Holds.isNearest (h : (ofFloat m e).Holds y) (hpos : 0 < m) : IsNearest m (y / 2 ^ e) := by
  have hlow := h.sub_half_le_div hpos
  have hhigh := h.div_le_high
  refine ⟨by linarith, by linarith, fun heq => h.even (.inl ?_), fun heq => h.even (.inr ?_)⟩
  · have hends := h.low_le_div
    rw [cast_low hpos] at hends ⊢
    split at hends
    · linarith
    · next hnarrow =>
      rw [if_neg hnarrow]
      linarith
  · linarith

/-- Below a power of two the floats are closer, so a number that rounds to it from below has the
next smaller exponent. -/
theorem Holds.isExponent (h : (ofFloat m e).Holds y) (hm : IsCanonical m e) (hpos : 0 < m) :
    IsExponent y e ∨ m = 2 ^ 52 ∧ IsExponent y (e - 1) ∧ IsNearest (2 ^ 53) (y / 2 ^ (e - 1)) := by
  have hlow := h.sub_half_le_div hpos
  have hhigh := h.div_le_high
  have hmost : (m : ℚ) ≤ 9007199254740991 := by exact_mod_cast Nat.le_pred_of_lt hm.lt_two_pow
  by_cases hfull : (2 : ℚ) ^ (52 + e) ≤ y ∨ e = -1074
  · refine .inl ⟨hm.le_exponent, ?_, hfull⟩
    rw [zpow_add₀ two_ne_zero, ← div_lt_iff₀ (two_zpow_pos e)]
    have hbits : (2 : ℚ) ^ (53 : ℤ) = 9007199254740992 := by norm_num
    rw [hbits]
    linarith
  · rw [not_or, not_le] at hfull
    obtain ⟨hless, hleast⟩ := hfull
    have hquotient : y / 2 ^ e < 4503599627370496 := by
      have hbits : (2 : ℚ) ^ (52 : ℤ) = 4503599627370496 := by norm_num
      rwa [zpow_add₀ two_ne_zero, ← div_lt_iff₀ (two_zpow_pos e), hbits] at hless
    have hm52 : m = 2 ^ 52 := by
      have hle : (m : ℚ) < 4503599627370497 := by linarith
      have hle' : m < 4503599627370497 := by exact_mod_cast hle
      have := hm.isFull.resolve_right hleast
      omega
    have hnarrow := h.low_le_div
    rw [cast_low hpos, if_pos ⟨hm52, lt_of_le_of_ne hm.le_exponent (Ne.symm hleast)⟩,
      hm52] at hnarrow
    push_cast at hnarrow
    have hdouble : y / 2 ^ (e - 1) = 2 * (y / 2 ^ e) := by
      rw [zpow_sub_one₀ two_ne_zero]
      field_simp
    refine .inr ⟨hm52, ⟨?_, ?_, .inl ?_⟩, ?_⟩
    · have := hm.le_exponent
      omega
    · have hsplit : (53 : ℤ) + (e - 1) = 52 + e := by ring
      rwa [hsplit]
    · have hsplit : (52 : ℤ) + (e - 1) = 51 + e := by ring
      rw [hsplit, zpow_add₀ two_ne_zero, ← le_div_iff₀ (two_zpow_pos e)]
      norm_num at hnarrow ⊢
      linarith
    · rw [hdouble]
      refine ⟨?_, ?_, fun _ => rfl, fun _ => rfl⟩ <;> push_cast <;> linarith

/-- The numbers in the interval round to the float. -/
theorem eq_of_rounds (hm : IsCanonical m e) (hpos : 0 < m) (h : (ofFloat m e).Holds y)
    (hu : Rounds s y u) : u = .finite s m e hpos := by
  obtain ⟨n, t, ht, hn, hcases⟩ := hu
  have hvalue : (n : ℚ) * 2 ^ t = m * 2 ^ e := by
    rcases h.isExponent hm hpos with he | ⟨rfl, he, hcarry⟩
    · obtain rfl := ht.eq he
      rw [hn.eq (h.isNearest hpos)]
    · obtain rfl := ht.eq he
      rw [hn.eq hcarry, zpow_sub_one₀ two_ne_zero]
      push_cast
      ring
  rcases hcases with ⟨rfl, -⟩ | ⟨m', e', hpos', rfl, hm', hvalue'⟩
  · rw [Nat.cast_zero, zero_mul] at hvalue
    exact absurd hvalue.symm (mul_pos (Nat.cast_pos.2 hpos) (two_zpow_pos e)).ne'
  · obtain ⟨rfl, rfl⟩ := hm'.eq hm (hvalue'.trans hvalue)
    rfl

end Rounding

end RoundingInterval

end SheetCut.Decimal
