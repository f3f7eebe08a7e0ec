import SheetCut.Proofs.Binary64.Nearest
import SheetCut.Proofs.Decimal.Grammar
import SheetCut.Proofs.Decimal.ReadBack

/-!
# Lenient numbers

A lenient number is the float nearest to the number that the longest numeral at the head of the
text writes, however many digits it has and however large its exponent is. It is zero where the
text does not begin with a numeral and where the numeral has a digit that is not ASCII.
-/

namespace SheetCut

open Text

namespace Binary64

open Float.Model Float.Model.UnpackedFloat

section Decimals

variable {n : ℕ} {d : ℤ} {x : ℚ}

end Decimals

end Binary64

namespace Numeral

open Binary64

variable {n : Numeral} {p t : List Char}

def toRat (n : Numeral) : ℚ :=
  (if n.negative then -1 else 1) *
    (digitsValue n.whole + digitsValue n.fraction / 10 ^ n.fraction.length) * 10 ^ n.power

end Numeral

section Lenient

open Numeral Binary64

variable {n : Numeral} {p text : List Char}

end Lenient

end SheetCut
