/-!
# 32-bit floating-point numbers

A number is its 32 bits: a sign, an exponent field of 8 bits and a fraction of 23 bits.  All
questions about it are answered in exact integer arithmetic.
-/

namespace Shading

/-- A 32-bit binary floating-point number, as its bits. -/
structure Binary32 where
  bits : UInt32
  deriving DecidableEq, Repr

namespace Binary32

/-- The number of fractions, `2 ^ 23`. -/
def fractions : Nat := 0x800000

/-- The number of magnitudes, `2 ^ 31`. -/
def magnitudes : Nat := 0x80000000

def minusOne : Binary32 := ⟨0xBF800000⟩

/-- The bits without the sign.  Among numbers that are not NaN this orders absolute values. -/
def magnitude (x : Binary32) : Nat :=
  x.bits.toNat % magnitudes

def signBit (x : Binary32) : Bool :=
  magnitudes ≤ x.bits.toNat

def exponentField (x : Binary32) : Nat :=
  x.magnitude / fractions

def fraction (x : Binary32) : Nat :=
  x.magnitude % fractions

def isNaN (x : Binary32) : Bool :=
  x.exponentField == 255 && x.fraction != 0

def isInfinite (x : Binary32) : Bool :=
  x.exponentField == 255 && x.fraction == 0

def isFinite (x : Binary32) : Bool :=
  x.exponentField < 255

def isZero (x : Binary32) : Bool :=
  x.magnitude == 0

/-- Strictly below zero; neither a zero nor a NaN is. -/
def isNegative (x : Binary32) : Bool :=
  x.signBit && !x.isZero && !x.isNaN

/-- Equality of values: the two zeros are equal and a NaN differs from everything. -/
def sameValue (x y : Binary32) : Bool :=
  !x.isNaN && !y.isNaN && (x.bits == y.bits || (x.isZero && y.isZero))

/-- Integer significand of a finite number, whose absolute value is
`significand * 2 ^ exponent`. -/
def significand (x : Binary32) : Nat :=
  if x.exponentField = 0 then x.fraction else x.fraction + fractions

def exponent (x : Binary32) : Int :=
  (max x.exponentField 1 : Nat) - 150

/-- Whether the number below in absolute value is only half as far as the number above. -/
def narrowBelow (x : Binary32) : Bool :=
  x.fraction == 0 && 1 < x.exponentField

/-- Whether a finite number is an integer. -/
def isIntegral (x : Binary32) : Bool :=
  x.significand * Nat.pow 2 x.exponent.toNat % Nat.pow 2 (-x.exponent).toNat == 0

/-- Integer part of the absolute value of a finite number. -/
def integerPart (x : Binary32) : Nat :=
  x.significand * Nat.pow 2 x.exponent.toNat / Nat.pow 2 (-x.exponent).toNat

end Binary32

end Shading
