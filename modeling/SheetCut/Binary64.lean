/-!
# Exact operations on binary64

Ceiling, hypotenuse and remainder of floats, computed on the exact values `± m * 2 ^ e` and rounded
once at the end. Nothing overflows or underflows in between: only the result is rounded.
-/

namespace SheetCut.Binary64

open Float.Model

/- Powers of natural numbers are those of the core library. -/
attribute [local instance (2000)] instPowNat

def unpack (x : Float) : UnpackedFloat := x.toModel.unpack

def pack (u : UnpackedFloat) : Float := .ofModel (.pack u)

/-- The least natural number that is not below `x`; `none` when `x` is not finite. -/
def ceil? (x : Float) : Option Nat :=
  match unpack x with
  | .notANumber => none
  | .infinity _ => none
  | .zero _ => some 0
  | .finite .negative .. => some 0
  | .finite .positive m e _ =>
    let den := 2 ^ (-e).toNat
    some ((m * 2 ^ e.toNat + (den - 1)) / den)

/-- `m₁ * 2 ^ e₁` and `m₂ * 2 ^ e₂` as multiples of the smaller of the two powers. -/
def align (m₁ : Nat) (e₁ : Int) (m₂ : Nat) (e₂ : Int) : Nat × Nat × Int :=
  let e := min e₁ e₂
  (m₁ * 2 ^ (e₁ - e).toNat, m₂ * 2 ^ (e₂ - e).toNat, e)

/-- The length of the hypotenuse over `x` and `y`. An infinite side wins over one that is not a
number. -/
def hypot (x y : Float) : Float :=
  match unpack x, unpack y with
  | .infinity _, _ => pack (.infinity .positive)
  | _, .infinity _ => pack (.infinity .positive)
  | .notANumber, _ => pack .notANumber
  | _, .notANumber => pack .notANumber
  | .zero _, _ => y.abs
  | _, .zero _ => x.abs
  | .finite _ m₁ e₁ _, .finite _ m₂ e₂ _ =>
    let (a, b, e) := align m₁ e₁ m₂ e₂
    if h : 0 < a * a + b * b then
      pack (UnpackedFloat.sqrt Format.binary64 (.finite .positive (a * a + b * b) (2 * e) h))
    else pack (.zero .positive)

/-- What is left of `x` after as many whole `y` as fit are taken away; it has the sign of `x` and
is always exact. -/
def rem (x y : Float) : Float :=
  match unpack x, unpack y with
  | .notANumber, _ => pack .notANumber
  | _, .notANumber => pack .notANumber
  | .infinity _, _ => pack .notANumber
  | _, .zero _ => pack .notANumber
  | .zero _, _ => x
  | _, .infinity _ => x
  | .finite s m₁ e₁ _, .finite _ m₂ e₂ _ =>
    let (a, b, e) := align m₁ e₁ m₂ e₂
    pack (UnpackedFloat.round Format.binary64 s (a % b) e)

end SheetCut.Binary64
