import SheetCut.Decimal.Layout
import SheetCut.Decimal.Numeral
import SheetCut.Proofs.Decimal.Grammar
import SheetCut.Proofs.Decimal.Rounding

/-!
# Numbers read back from their texts

The text of a finite float is a numeral without an exponent: a sign, digits and perhaps a point with
more digits. Reading it gives the float again.
-/

namespace SheetCut

open Text

namespace Text

variable {cs : List Char}

theorem digitsValue_append (xs ys : List Char) :
    digitsValue (xs ++ ys) = digitsValue xs * 10 ^ ys.length + digitsValue ys := by
  induction ys using List.reverseRecOn with
  | nil => simp [digitsValue]
  | append_singleton ys y ih =>
    have hsnoc : ∀ ds d, digitsValue (ds ++ [d]) = 10 * digitsValue ds + digitValue d := by
      intro ds d
      rw [digitsValue, List.foldl_append]
      rfl
    rw [← List.append_assoc, hsnoc, hsnoc, ih, List.length_append, List.length_singleton, pow_succ]
    ring

theorem digitsValue_zeros (k : ℕ) : digitsValue (Decimal.zeros k) = 0 := by
  induction k with
  | zero => rfl
  | succ k ih =>
    rw [Decimal.zeros, List.replicate_succ', digitsValue_append, ← Decimal.zeros, ih, zero_mul,
      zero_add]
    rfl

theorem digitsValue_digits (n : ℕ) : digitsValue (Decimal.digits n) = n :=
  Json.extendDigits_toDigits n

theorem trim_of_forall (h : ∀ c ∈ cs, isBlank c = false) : trim cs = cs :=
  trim_eq_self (fun c hc => h c (List.mem_of_head? hc)) fun c hc => h c (List.mem_of_getLast? hc)

theorem isBlank_of_isDigit {c : Char} (h : isDigit c = true) : isBlank c = false := by
  have hruns : ∀ z ∈ digitZeros, ∀ k < 10, isBlank (Char.ofNat (z + k)) = false := by decide +kernel
  obtain ⟨z, hz, hc⟩ := List.any_eq_true.1 h
  rw [Bool.and_eq_true, decide_eq_true_eq, decide_eq_true_eq] at hc
  have hrun := hruns z hz (c.toNat - z) (by omega)
  rwa [Nat.add_sub_cancel' hc.1, Char.ofNat_toNat] at hrun

theorem isBlank_of_isAsciiDigit {c : Char} (h : isAsciiDigit c = true) : isBlank c = false :=
  isBlank_of_isDigit (isDigit_of_isAsciiDigit h)

end Text

namespace Numeral

variable {negative : Bool} {whole : List Char} {fraction : Option (List Char)}

/-- The text of a numeral without an exponent: the sign of a negative one, digits, and a point with
more digits. -/
def plainText (negative : Bool) (whole : List Char) (fraction : Option (List Char)) : List Char :=
  (if negative then ['-'] else []) ++ whole ++ fraction.elim [] ('.' :: ·)

theorem mem_plainText {c : Char} (h : c ∈ plainText negative whole fraction) :
    negative = true ∧ c = '-' ∨ c = '.' ∨ c ∈ whole ∨ c ∈ fraction.getD [] := by
  rw [plainText, List.mem_append, List.mem_append] at h
  rcases h with (h | h) | h
  · cases negative with
    | true => exact .inl ⟨rfl, List.mem_singleton.1 h⟩
    | false => cases h
  · exact .inr (.inr (.inl h))
  · cases fraction with
    | none => cases h
    | some ds => exact .inr ((List.mem_cons.1 h).imp_right .inr)

structure IsPlain (whole : List Char) (fraction : Option (List Char)) : Prop where
  ne_nil : whole ≠ []
  whole : ∀ c ∈ whole, isAsciiDigit c = true
  fraction : ∀ c ∈ fraction.getD [], isAsciiDigit c = true

section Plain

variable (h : IsPlain whole fraction)
include h

theorem IsPlain.isBlank_of_mem {c : Char} (hc : c ∈ plainText negative whole fraction) :
    isBlank c = false := by
  rcases mem_plainText hc with ⟨-, rfl⟩ | rfl | hc | hc
  · rfl
  · rfl
  · exact isBlank_of_isAsciiDigit (h.whole c hc)
  · exact isBlank_of_isAsciiDigit (h.fraction c hc)

theorem IsPlain.spells :
    Spells ⟨negative, whole, fraction.getD [], none⟩ (plainText negative whole fraction) := by
  have hwhole : ∀ c ∈ whole, isDigit c = true := fun c hc => isDigit_of_isAsciiDigit (h.whole c hc)
  have hfraction : ∀ c ∈ fraction.getD [], isDigit c = true :=
    fun c hc => isDigit_of_isAsciiDigit (h.fraction c hc)
  have hsign : SpellsSign negative (if negative then ['-'] else []) := by
    cases negative with
    | true => exact .minus
    | false => exact .absent
  have hmantissa :
      SpellsMantissa whole (fraction.getD []) (whole ++ fraction.elim [] ('.' :: ·)) := by
    cases fraction with
    | none => simpa using SpellsMantissa.whole h.ne_nil hwhole
    | some ds => exact .point (.inl h.ne_nil) hwhole hfraction
  have hspells := Spells.mk (n := ⟨negative, whole, fraction.getD [], none⟩) hsign hmantissa .absent
  rwa [List.append_nil, ← List.append_assoc] at hspells

end Plain

theorem IsPlain.lenientNumber_plainText {α : Type} [Scalar α] (h : IsPlain whole fraction) :
    (lenientNumber (plainText negative whole fraction) : α) =
      value ⟨negative, whole, fraction.getD [], none⟩ := by
  have hascii : isAscii ⟨negative, whole, fraction.getD [], none⟩ = true := by
    rw [isAscii, List.all_eq_true]
    intro c hc
    simp only [Option.map_none, Option.getD_none, List.append_nil, List.mem_append] at hc
    exact hc.elim (h.whole c) (h.fraction c)
  rw [lenientNumber, trim_of_forall fun c hc => h.isBlank_of_mem hc, h.spells.read?_eq]
  exact if_pos hascii

end Numeral
namespace Decimal

open Float.Model Float.Model.UnpackedFloat Binary64

section Texts

theorem isAsciiDigit_of_mem_digits {n : ℕ} {c : Char} (h : c ∈ digits n) : isAsciiDigit c = true :=
  Json.isAsciiDigit_of_mem_toDigits h

@[simp]
theorem length_zeros (k : ℕ) : (zeros k).length = k := List.length_replicate

theorem isAsciiDigit_of_mem_zeros {k : ℕ} {c : Char} (h : c ∈ zeros k) : isAsciiDigit c = true := by
  rw [List.eq_of_mem_replicate h]
  rfl

/-- Digits without an exponent are a plain numeral of the same value. -/
theorem exists_plainText (n : ℕ) (d : ℤ) : ∃ whole fraction, Numeral.IsPlain whole fraction ∧
    positionalDigits false n d = Numeral.plainText false whole fraction ∧
    (digitsValue (whole ++ fraction.getD []) : ℚ) * 10 ^ (-(fraction.getD []).length : ℤ) =
      n * 10 ^ d := by
  have hdigits : ∀ {c}, c ∈ digits n → isAsciiDigit c = true := isAsciiDigit_of_mem_digits
  have hzeros : ∀ {c k}, c ∈ zeros k → isAsciiDigit c = true := isAsciiDigit_of_mem_zeros
  simp only [positionalDigits, Bool.false_eq_true, if_false, List.append_nil]
  split_ifs with hd hbefore
  · refine ⟨digits n ++ zeros d.toNat, none, ⟨?_, ?_, List.forall_mem_nil _⟩,
      (List.append_nil _).symm, ?_⟩
    · exact List.append_ne_nil_of_left_ne_nil Nat.toDigits_ne_nil _
    · exact fun c hc => (List.mem_append.1 hc).elim hdigits hzeros
    · obtain ⟨k, rfl⟩ := Int.eq_ofNat_of_zero_le hd
      simp [digitsValue_append, digitsValue_zeros, digitsValue_digits]
  · obtain ⟨k, hk⟩ : ∃ k : ℕ, (digits n).length + d = k :=
      ⟨_, (Int.toNat_of_nonneg hbefore.le).symm⟩
    rw [hk, Int.toNat_natCast]
    refine ⟨(digits n).take k, some ((digits n).drop k), ⟨?_, ?_, ?_⟩, rfl, ?_⟩
    · rw [← List.length_pos_iff, List.length_take]
      have : 0 < (digits n).length := Nat.length_toDigits_pos
      omega
    · exact fun c hc => hdigits (List.mem_of_mem_take hc)
    · exact fun c hc => hdigits (List.mem_of_mem_drop hc)
    · have hexponent : -(((digits n).drop k).length : ℤ) = d := by
        rw [List.length_drop]
        omega
      rw [Option.getD_some, List.take_append_drop, digitsValue_digits, hexponent]
  · obtain ⟨k, hk⟩ : ∃ k : ℕ, -((digits n).length + d) = k :=
      ⟨_, (Int.toNat_of_nonneg (by omega)).symm⟩
    rw [hk, Int.toNat_natCast]
    refine ⟨['0'], some (zeros k ++ digits n), ⟨List.cons_ne_nil _ _, ?_, ?_⟩, rfl, ?_⟩
    · exact List.forall_mem_singleton.2 rfl
    · exact fun c hc => (List.mem_append.1 hc).elim hzeros hdigits
    · have hexponent : -((zeros k ++ digits n).length : ℤ) = d := by
        rw [List.length_append, length_zeros]
        omega
      rw [Option.getD_some, hexponent, ← List.append_assoc, digitsValue_append, digitsValue_append,
        digitsValue_zeros, digitsValue_digits]
      simp [digitsValue, digitValue]

theorem neg_pack_positive {m : ℕ} {e : ℤ} (hpos : 0 < m) (hm : IsCanonical m e) (he : e ≤ 971) :
    -Binary64.pack (.finite .positive m e hpos) = Binary64.pack (.finite .negative m e hpos) := by
  have hunpack := unpack_pack_of_isCanonical .positive hpos hm
  rw [if_pos he] at hunpack
  show Binary64.pack (Binary64.unpack _).neg = _
  rw [hunpack]
  rfl

/-- The text of a finite float is a plain numeral, and it is read as the float. -/
theorem exists_plainText_of_isFinite {x : Float} (hx : x.isFinite = true) :
    ∃ negative whole fraction, Numeral.IsPlain whole fraction ∧
      (plain.text x).toList = Numeral.plainText negative whole fraction ∧
      Numeral.value ⟨negative, whole, fraction.getD [], none⟩ = x := by
  rcases isFinite_iff.1 hx with ⟨s, hs⟩ | ⟨s, m, e, hpos, hs⟩
  · have hzero : Numeral.IsPlain ['0'] none :=
      ⟨List.cons_ne_nil _ _, List.forall_mem_singleton.2 rfl, List.forall_mem_nil _⟩
    refine ⟨s == .negative, ['0'], none, hzero, ?_, ?_⟩
    · rw [Layout.text, hs]
      cases s <;> rfl
    · rw [← pack_unpack x, hs]
      cases s <;> rfl
  · have hm := isCanonical_of_unpack hs
    have he := exponent_le_of_unpack hs
    obtain ⟨whole, fraction, hplain, htext, hvalue⟩ :=
      exists_plainText (shortest .up m e).1 (shortest .up m e).2
    refine ⟨s == .negative, whole, fraction, hplain, ?_, ?_⟩
    · have hfinite : (plain.finiteText m e).toList = Numeral.plainText false whole fraction := by
        rw [← htext]
        exact String.toList_ofList ..
      rw [Layout.text, hs]
      show (signText s ++ plain.finiteText m e).toList = _
      rw [String.toList_append, hfinite]
      cases s <;> rfl
    · have hread : (Scalar.ofDecimal (digitsValue (whole ++ fraction.getD []))
          (0 - (fraction.getD []).length) : Float) =
          Binary64.pack (.finite .positive m e hpos) := by
        refine ofDecimal_of_holds hm he hpos ?_
        rw [zero_sub, hvalue]
        exact holds_shortest .up hpos hm.lt_two_pow
      have hx : x = Binary64.pack (.finite s m e hpos) := by rw [← hs, pack_unpack]
      rw [hx, Numeral.value, Numeral.power]
      simp only [hread]
      cases s with
      | positive => rfl
      | negative => exact neg_pack_positive hpos hm he

/-- A finite float is read back from its text. -/
theorem lenientNumber_text {x : Float} (hx : x.isFinite = true) :
    lenientNumber (plain.text x).toList = x := by
  obtain ⟨negative, whole, fraction, hplain, htext, hvalue⟩ := exists_plainText_of_isFinite hx
  rw [htext, hplain.lenientNumber_plainText, hvalue]

end Texts

section Integers

theorem roundToInt_mul_two_pow (s : Sign) (n k : ℕ) :
    roundToInt s (n * 2 ^ k) (-k) = s.apply n := by
  have hdecrease : decreaseExponent (n * 2 ^ k) (-k) 0 = (n * 2 ^ k, (-k : ℤ)) := by
    have hshift : (-(k : ℤ) - 0).toNat = 0 := by omega
    rw [decreaseExponent, hshift]
    exact Prod.ext rfl (sub_zero _)
  have hshift : shiftToExponent (n * 2 ^ k) (-k) .exact 0 = (⟨n, false, false⟩, 0) := by
    have hamount : (0 - -(k : ℤ)).toNat = k := by omega
    rw [shiftToExponent, hamount]
    exact Prod.ext (shiftRight_mul_two_pow n k) (neg_add_cancel _)
  rw [roundToInt]
  simp only [hdecrease, hshift]

def ofInt (z : ℤ) : Float := if z < 0 then -Float.ofNat z.natAbs else Float.ofNat z.natAbs

theorem unpack_neg_ofNat {n : ℕ} (hn : 0 < n) (hlt : n < 2 ^ 53) : ∃ (k : ℕ) (hm : 0 < n * 2 ^ k),
    Binary64.unpack (-Float.ofNat n) = .finite .negative (n * 2 ^ k) (-k) hm := by
  obtain ⟨k, hm, hunpack, -⟩ := unpack_ofNat_eq hn hlt
  refine ⟨k, hm, ?_⟩
  have hx : Float.ofNat n = Binary64.pack (.finite .positive (n * 2 ^ k) (-k) hm) := by
    rw [← hunpack, pack_unpack]
  have hcanonical := isCanonical_of_unpack hunpack
  have he := exponent_le_of_unpack hunpack
  rw [hx, neg_pack_positive hm hcanonical he, unpack_pack_of_isCanonical _ hm hcanonical, if_pos he]

theorem toInt_ofInt {z : ℤ} (hz : z.natAbs < 2 ^ 53) (least most : ℤ) :
    UnpackedFloat.toInt least most (Binary64.unpack (ofInt z)) = z := by
  by_cases hneg : z < 0
  · obtain ⟨k, hm, hunpack⟩ := unpack_neg_ofNat (show 0 < z.natAbs by omega) hz
    rw [ofInt, if_pos hneg, hunpack]
    refine (roundToInt_mul_two_pow .negative z.natAbs k).trans ?_
    show -(z.natAbs : ℤ) = z
    omega
  · rw [ofInt, if_neg hneg]
    rcases Nat.eq_zero_or_pos z.natAbs with hzero | hpos
    · rw [hzero]
      show 0 = z
      omega
    · obtain ⟨k, hm, hunpack, -⟩ := unpack_ofNat_eq hpos hz
      rw [hunpack]
      refine (roundToInt_mul_two_pow .positive z.natAbs k).trans ?_
      show (z.natAbs : ℤ) = z
      omega

theorem toInt32_ofInt (m : Int32) : Scalar.toInt32 (ofInt m.toInt) = m := by
  have hsmall : m.toInt.natAbs < 2 ^ 53 := by
    have hlow : -2 ^ 31 ≤ m.toInt := m.le_toInt
    have hhigh : m.toInt < 2 ^ 31 := m.toInt_lt
    omega
  show Int32.ofIntClamp (UnpackedFloat.toInt _ _ (Binary64.unpack _)) = m
  rw [toInt_ofInt hsmall, Int32.ofIntClamp_toInt]

theorem toList_toString (z : ℤ) :
    (toString z).toList = Numeral.plainText (z < 0) (digits z.natAbs) none := by
  cases z with
  | ofNat n =>
    have htext : (toString (Int.ofNat n)).toList = Nat.toDigits 10 n := Nat.toList_repr
    rw [htext, Numeral.plainText]
    simp [digits]
  | negSucc n =>
    have htext : (toString (Int.negSucc n)).toList = '-' :: Nat.toDigits 10 (n + 1) := by
      show ("-" ++ (n + 1).repr).toList = _
      rw [String.toList_append, Nat.toList_repr]
      rfl
    rw [htext, Numeral.plainText]
    simp [digits]

/-- A whole number is written with digits and perhaps a minus. -/
theorem mem_toString {z : ℤ} {c : Char} (h : c ∈ (toString z).toList) :
    c = '-' ∨ isAsciiDigit c = true := by
  rw [toList_toString, Numeral.plainText, Option.elim_none, List.append_nil, List.mem_append] at h
  refine h.imp (fun h => ?_) fun h => isAsciiDigit_of_mem_digits h
  split at h
  · exact List.mem_singleton.1 h
  · cases h

theorem lenientNumber_toString (z : ℤ) : lenientNumber (toString z).toList = ofInt z := by
  have hplain : Numeral.IsPlain (digits z.natAbs) none :=
    ⟨Nat.toDigits_ne_nil, fun c hc => isAsciiDigit_of_mem_digits hc, List.forall_mem_nil _⟩
  rw [toList_toString, hplain.lenientNumber_plainText, Numeral.value, Option.getD_none,
    List.append_nil, digitsValue_digits]
  by_cases hz : z < 0
  · rw [ofInt, if_pos hz, if_pos (by simpa using hz)]
    rfl
  · rw [ofInt, if_neg hz, if_neg (by simpa using hz)]
    rfl

end Integers

end Decimal

end SheetCut
