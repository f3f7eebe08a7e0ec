import SheetCut.Binary64

/-!
# Scalars

The arithmetic that coordinates, angles and lengths are computed in. Everything that is computed
is written over this class; `Float` is the instance that runs, and an instance without rounding
gives the same definitions their exact meaning.
-/

namespace SheetCut

class Scalar (α : Type) extends
    Zero α, One α, NatCast α, Add α, Sub α, Neg α, Mul α, Div α, LT α, LE α, BEq α where
  decidableLT : DecidableLT α
  decidableLE : DecidableLE α
  abs : α → α
  isFinite : α → Bool
  infinity : α
  pi : α
  sin : α → α
  cos : α → α
  /-- The angle of the vector with the given ordinate and abscissa. -/
  atan2 : α → α → α
  /-- The length of the vector with the given components. -/
  hypot : α → α → α
  /-- The remainder of the division rounded toward zero; it has the sign of the dividend. -/
  rem : α → α → α
  /-- The least natural number that is not below, if the scalar is finite. -/
  ceil? : α → Option Nat
  /-- The scalar nearest to `m * 10 ^ e`. -/
  ofDecimal : Nat → Int → α
  /-- The whole part, cut off at the ends of the range; 0 when not a number. -/
  toInt32 : α → Int32
  toUInt32 : α → UInt32

namespace Scalar

variable {α : Type} [Scalar α]

instance : DecidableLT α := decidableLT

instance : DecidableLE α := decidableLE

def fullTurn : α := pi + pi

def quarterTurn : α := pi / ((2 : Nat) : α)

def ofDegrees (degrees : α) : α := degrees * (pi / ((180 : Nat) : α))

/-- The remainder that is not negative, for a positive `b`. -/
def modulo (a b : α) : α :=
  let r := rem a b
  if r < 0 then r + abs b else r

/-- The smaller of two scalars. Of a scalar and one that is not a number it is the former, and of
two equal ones the second. -/
def lower (a b : α) : α := if b ≤ a ∨ ¬ a ≤ a then b else a

/-- The larger of two scalars, with the same rules as `lower`. -/
def upper (a b : α) : α := if a ≤ b ∨ ¬ a ≤ a then b else a

end Scalar

instance : Scalar Float where
  zero := 0
  one := 1
  natCast := Float.ofNat
  decidableLT := fun a b => Float.decLt a b
  decidableLE := fun a b => Float.decLe a b
  abs := Float.abs
  isFinite := Float.isFinite
  infinity := 1 / 0
  pi := 3.141592653589793
  sin := Float.sin
  cos := Float.cos
  atan2 := Float.atan2
  hypot := Binary64.hypot
  rem := Binary64.rem
  ceil? := Binary64.ceil?
  ofDecimal := fun m e => Float.ofScientific m (e < 0) e.natAbs
  toInt32 := fun x => x.toModel.toInt32
  toUInt32 := Float.toUInt32

end SheetCut
