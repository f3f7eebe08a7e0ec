import Mathlib
import SheetCut.Binary64

/-!
# The bits of a binary64

Packing gives back the float that was unpacked. The mantissa and the exponent of a finite float are
in range, and unpacking gives back what was packed within it; what is too large becomes infinite.
-/

namespace SheetCut.Binary64

open Float.Model Float.Model.UnpackedFloat

/-- A mantissa and an exponent as a binary64 holds them: all 53 bits are in use, unless the exponent
is the least one. -/
structure IsCanonical (m : Nat) (e : Int) : Prop where
  lt_two_pow : m < 2 ^ 53
  le_exponent : -1074 ≤ e
  isFull : 2 ^ 52 ≤ m ∨ e = -1074

theorem log2_eq_of_isFull {m : Nat} (hlt : m < 2 ^ 53) (hfull : 2 ^ 52 ≤ m) : m.log2 = 52 :=
  (Nat.log2_eq_iff (by omega)).2 ⟨hfull, hlt⟩

section Fields

variable {b : BitVec Format.binary64.numBits}

theorem toNat_implicit_append (v : BitVec 52) : (1#1 ++ v).toNat = 2 ^ 52 + v.toNat := by
  rw [BitVec.toNat_append, ← Nat.shiftLeft_add_eq_or_of_lt v.isLt]
  rfl

theorem pack_normal (s : Sign) {m : Nat} {field : Nat} (hpos : 0 < m) (hfull : 2 ^ 52 ≤ m)
    (hlt : m < 2 ^ 53) (hfield : field < 2047) :
    UnpackedFloat.pack Format.binary64 (.finite s m (field - 1075) hpos) =
      packComponents Format.binary64 s (BitVec.ofNat 11 field) (BitVec.ofNat 52 m) := by
  have hlog := log2_eq_of_isFull hlt hfull
  have hbiased : ((field : Int) - 1075 + (Format.binary64.exponentBias : Int) +
      (Format.binary64.mantissaBitsWithoutImplicit : Int)).toNat = field := by
    show ((field : Int) - 1075 + 1023 + 52).toNat = field
    omega
  rw [UnpackedFloat.pack]
  simp only [hbiased]
  rw [if_neg, if_pos]
  · show m.log2 + 1 = 53
    omega
  · show ¬2048 ≤ field + 1
    omega

theorem unpack_top (htop : unpackExponent b = -1#11) :
    UnpackedFloat.unpack Format.binary64 b =
      if unpackMantissa b = 0#52 then .infinity (Sign.ofBitVec (unpackSign b))
      else .notANumber := by
  rw [UnpackedFloat.unpack]
  simp only [if_pos htop]

theorem unpack_zero (hexponent : unpackExponent b = 0#11) (hmantissa : unpackMantissa b = 0#52) :
    UnpackedFloat.unpack Format.binary64 b = .zero (Sign.ofBitVec (unpackSign b)) := by
  rw [UnpackedFloat.unpack]
  simp only [hexponent, dif_pos hmantissa]
  rfl

theorem unpack_subnormal (hexponent : unpackExponent b = 0#11)
    (hmantissa : unpackMantissa b ≠ 0#52) :
    ∃ hpos, UnpackedFloat.unpack Format.binary64 b =
      .finite (Sign.ofBitVec (unpackSign b)) (unpackMantissa b).toNat (-1074) hpos := by
  have hpos : 0 < (unpackMantissa b).toNat :=
    Nat.pos_of_ne_zero fun h => hmantissa (BitVec.eq_of_toNat_eq h)
  refine ⟨hpos, ?_⟩
  rw [UnpackedFloat.unpack]
  simp only [hexponent]
  rw [if_neg (by decide), if_pos trivial, dif_neg hmantissa]
  rfl

theorem unpack_normal (htop : unpackExponent b ≠ -1#11) (hbottom : unpackExponent b ≠ 0#11) :
    ∃ hpos, UnpackedFloat.unpack Format.binary64 b =
      .finite (Sign.ofBitVec (unpackSign b)) (2 ^ 52 + (unpackMantissa b).toNat)
        ((unpackExponent b).toNat - 1075) hpos := by
  have hpos : 0 < 2 ^ 52 + (unpackMantissa b).toNat := Nat.add_pos_left (by decide) _
  refine ⟨hpos, ?_⟩
  rw [UnpackedFloat.unpack]
  simp only [toNat_implicit_append]
  rw [if_neg htop, if_neg hbottom]
  rfl

theorem isCanonical_of_unpack_bits {s : Sign} {m : Nat} {e : Int} {hpos : 0 < m}
    (h : UnpackedFloat.unpack Format.binary64 b = .finite s m e hpos) : IsCanonical m e := by
  have hsmall : (unpackMantissa b).toNat < 2 ^ 52 := (unpackMantissa b).isLt
  by_cases htop : unpackExponent b = -1#11
  · rw [unpack_top htop] at h
    split at h <;> cases h
  by_cases hbottom : unpackExponent b = 0#11
  · by_cases hmantissa : unpackMantissa b = 0#52
    · rw [unpack_zero hbottom hmantissa] at h
      cases h
    · obtain ⟨_, hunpack⟩ := unpack_subnormal hbottom hmantissa
      rw [hunpack] at h
      cases h
      exact ⟨by omega, le_rfl, .inr rfl⟩
  · obtain ⟨_, hunpack⟩ := unpack_normal htop hbottom
    rw [hunpack] at h
    cases h
    have hfield : (unpackExponent b).toNat ≠ 0 := fun heq => hbottom (BitVec.eq_of_toNat_eq heq)
    exact ⟨by omega, by omega, .inl (by omega)⟩

end Fields

theorem pack_unpack (x : Float) : pack (unpack x) = x := by
  obtain ⟨bits, hvalid⟩ := x
  have hbits := pack_unpack_of_valid hvalid
  simp only [pack, unpack, Float.Model.pack, Float.Model.unpack, hbits]

theorem isCanonical_of_unpack {x : Float} {s : Sign} {m : Nat} {e : Int} {hpos : 0 < m}
    (h : unpack x = .finite s m e hpos) : IsCanonical m e :=
  isCanonical_of_unpack_bits h

theorem unpack_pack_normal (s : Sign) {m : Nat} {e : Int} (hpos : 0 < m) (hfull : 2 ^ 52 ≤ m)
    (hlt : m < 2 ^ 53) (hle : -1074 ≤ e) (hge : e ≤ 971) :
    unpack (pack (.finite s m e hpos)) = .finite s m e hpos := by
  obtain ⟨field, rfl⟩ : ∃ field : Nat, e = field - 1075 := ⟨(e + 1075).toNat, by omega⟩
  have hfield : (BitVec.ofNat 11 field).toNat = field := by
    show field % 2 ^ 11 = field
    omega
  have hmantissa : 2 ^ 52 + (BitVec.ofNat 52 m).toNat = m := by
    show 2 ^ 52 + m % 2 ^ 52 = m
    omega
  have htop : BitVec.ofNat 11 field ≠ -1#11 := by
    intro h
    rw [h] at hfield
    change 2047 = field at hfield
    omega
  have hbottom : BitVec.ofNat 11 field ≠ 0#11 := by
    intro h
    rw [h] at hfield
    change 0 = field at hfield
    omega
  obtain ⟨_, hunpack⟩ := unpack_normal
    (b := packComponents Format.binary64 s (BitVec.ofNat 11 field) (BitVec.ofNat 52 m))
    (by rwa [unpackExponent_packComponents]) (by rwa [unpackExponent_packComponents])
  show UnpackedFloat.unpack Format.binary64 (UnpackedFloat.pack Format.binary64 _) = _
  rw [pack_normal s hpos hfull hlt (by omega), hunpack]
  simp only [unpackExponent_packComponents, unpackMantissa_packComponents,
    unpackSign_packComponents, Sign.ofBitVec_toBitVec, hfield, hmantissa]

theorem unpack_pack_subnormal (s : Sign) {m : Nat} (hpos : 0 < m) (hlt : m < 2 ^ 52) :
    unpack (pack (.finite s m (-1074) hpos)) = .finite s m (-1074) hpos := by
  have hpack : UnpackedFloat.pack Format.binary64 (.finite s m (-1074) hpos) =
      packComponents Format.binary64 s 0#11 (BitVec.ofNat 52 m) := by
    have hlog := (Nat.log2_lt hpos.ne').2 hlt
    rw [UnpackedFloat.pack]
    exact (if_neg (by decide)).trans (if_neg (show ¬m.log2 + 1 = 53 by omega))
  have hmantissa : (BitVec.ofNat 52 m).toNat = m := Nat.mod_eq_of_lt hlt
  obtain ⟨_, hunpack⟩ := unpack_subnormal
    (b := packComponents Format.binary64 s 0#11 (BitVec.ofNat 52 m))
    (by rw [unpackExponent_packComponents]) (by
      rw [unpackMantissa_packComponents]
      intro hzero
      rw [hzero] at hmantissa
      exact hpos.ne hmantissa)
  show UnpackedFloat.unpack Format.binary64 (UnpackedFloat.pack Format.binary64 _) = _
  rw [hpack, hunpack]
  simp only [unpackMantissa_packComponents, unpackSign_packComponents, Sign.ofBitVec_toBitVec,
    hmantissa]

theorem unpack_pack_infinity (s : Sign) : unpack (pack (.infinity s)) = .infinity s := by
  cases s <;> rfl

/-- What is too large for the exponent is packed as an infinity. -/
theorem pack_overflow (s : Sign) {m : Nat} {e : Int} (hpos : 0 < m) (he : 971 < e) :
    pack (.finite s m e hpos) = pack (.infinity s) := by
  have hpack : UnpackedFloat.pack Format.binary64 (.finite s m e hpos) =
      packedInfinity Format.binary64 s := by
    rw [UnpackedFloat.pack]
    refine if_pos ?_
    show 2 ^ 11 ≤ (e + 1023 + 52).toNat + 1
    omega
  rw [pack, pack, Float.Model.pack, Float.Model.pack]
  simp only [hpack]
  rfl

/-- A canonical float is packed as it is, or as an infinity. -/
theorem unpack_pack_of_isCanonical (s : Sign) {m : Nat} {e : Int} (hpos : 0 < m)
    (h : IsCanonical m e) :
    unpack (pack (.finite s m e hpos)) = if e ≤ 971 then .finite s m e hpos else .infinity s := by
  split
  · next he =>
    rcases Nat.lt_or_ge m (2 ^ 52) with hlt | hfull
    · obtain rfl := h.isFull.resolve_left (Nat.not_le.2 hlt)
      exact unpack_pack_subnormal s hpos hlt
    · exact unpack_pack_normal s hpos hfull h.lt_two_pow h.le_exponent he
  · next he => rw [pack_overflow s hpos (not_le.1 he), unpack_pack_infinity]

theorem exponent_le_of_unpack {x : Float} {s : Sign} {m : Nat} {e : Int} {hpos : 0 < m}
    (h : unpack x = .finite s m e hpos) : e ≤ 971 := by
  by_contra he
  have hx := pack_unpack x
  rw [h, pack_overflow s hpos (not_le.1 he)] at hx
  rw [← hx, unpack_pack_infinity] at h
  cases h

end SheetCut.Binary64
