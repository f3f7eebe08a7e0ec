/-!
# Decimal digits

Unicode's decimal digits (general category `Nd`, version 16). They come in runs of ten, one run to
a script, so the table holds the zero of each run.
-/

namespace SheetCut.Text

/-- The zero of each of the 76 runs, in ascending order. -/
def digitZeros : List Nat :=
  [0x30, 0x660, 0x6F0, 0x7C0, 0x966, 0x9E6, 0xA66, 0xAE6, 0xB66, 0xBE6, 0xC66, 0xCE6, 0xD66,
   0xDE6, 0xE50, 0xED0, 0xF20, 0x1040, 0x1090, 0x17E0, 0x1810, 0x1946, 0x19D0, 0x1A80, 0x1A90,
   0x1B50, 0x1BB0, 0x1C40, 0x1C50, 0xA620, 0xA8D0, 0xA900, 0xA9D0, 0xA9F0, 0xAA50, 0xABF0,
   0xFF10, 0x104A0, 0x10D30, 0x10D40, 0x11066, 0x110F0, 0x11136, 0x111D0, 0x112F0, 0x11450,
   0x114D0, 0x11650, 0x116C0, 0x116D0, 0x116DA, 0x11730, 0x118E0, 0x11950, 0x11BF0, 0x11C50,
   0x11D50, 0x11DA0, 0x11F50, 0x16130, 0x16A60, 0x16AC0, 0x16B50, 0x16D70, 0x1CCF0, 0x1D7CE,
   0x1D7D8, 0x1D7E2, 0x1D7EC, 0x1D7F6, 0x1E140, 0x1E2F0, 0x1E4F0, 0x1E5F1, 0x1E950, 0x1FBF0]

/-- A decimal digit of any script. -/
def isDigit (c : Char) : Bool := digitZeros.any fun z => z ≤ c.toNat && c.toNat < z + 10

/-- One of the ten digits `0` to `9`; only these have a value here. -/
def isAsciiDigit (c : Char) : Bool := '0' ≤ c && c ≤ '9'

def digitValue (c : Char) : Nat := c.toNat - 48

/-- The number that a row of ASCII digits writes in base ten; 0 for the empty row. -/
def digitsValue (ds : List Char) : Nat := ds.foldl (fun n d => 10 * n + digitValue d) 0

def hexValue? (c : Char) : Option Nat :=
  if '0' ≤ c && c ≤ '9' then some (c.toNat - 48)
  else if 'a' ≤ c && c ≤ 'f' then some (c.toNat - 87)
  else if 'A' ≤ c && c ≤ 'F' then some (c.toNat - 55)
  else none

def hexNumber? (ds : List Char) : Option Nat :=
  ds.foldlM (fun n d => (hexValue? d).map (16 * n + ·)) 0

theorem isDigit_of_isAsciiDigit {c : Char} (h : isAsciiDigit c) : isDigit c := by
  simp only [isAsciiDigit, Bool.and_eq_true, decide_eq_true_eq, Char.le_def,
    UInt32.le_iff_toNat_le] at h
  have hz : 0x30 ∈ digitZeros := by simp [digitZeros]
  refine List.any_eq_true.mpr ⟨0x30, hz, ?_⟩
  have h₁ : (48 : Nat) ≤ c.toNat := h.1
  have h₂ : c.toNat ≤ 57 := h.2
  simp only [Bool.and_eq_true, decide_eq_true_eq]
  omega

/-- Reads a row of ASCII digits below `2 ^ 32`; `none` for the empty row, a digit of another
script, or a larger number. -/
def uint32? (ds : List Char) : Option UInt32 :=
  if ds ≠ [] ∧ ds.all isAsciiDigit ∧ digitsValue ds < UInt32.size then
    some (UInt32.ofNat (digitsValue ds))
  else none

/-- An optional sign and the text after it; the flag says that the sign is a minus. -/
def takeSign : List Char → Bool × List Char
  | '+' :: cs => (false, cs)
  | '-' :: cs => (true, cs)
  | cs => (false, cs)

/-- Reads an optional sign and a row of ASCII digits whose value fits 32 signed bits. -/
def int32? (cs : List Char) : Option Int32 :=
  let (negative, ds) := takeSign cs
  let value : Int := if negative then -(digitsValue ds : Int) else digitsValue ds
  if ds ≠ [] ∧ ds.all isAsciiDigit ∧ Int32.minValue.toInt ≤ value ∧
      value ≤ Int32.maxValue.toInt then
    some (Int32.ofInt value)
  else none

end SheetCut.Text
