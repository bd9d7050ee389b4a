import InfixCalculator.Number.Rounding

/-!
# Binary floating point of 64 bits

Every finite number of the format is a whole number of *units*, the unit being the least positive number `2 ^ -1074`.

* `units x` is the size of a finite number in units, `isNegative x` its sign (also of `-0.0`).
* `ofUnitRatio n d` is the number nearest to `n / d` units, ties to the even bit pattern, infinite above the range;
  `ofRatio n d` is the number nearest to `n / d`.
* `ofDecimal digits exponent` is the number nearest to `digits * 10 ^ exponent`, for exponents of any size.
* `remainder x y` is the exact remainder of the division truncated toward zero, with the sign of `x`.
-/

namespace InfixCalculator.Number

/-- The binary exponent of the unit, negated. -/
def unitScale : Nat := 1074

/-- The number of units in one. -/
def unitsInOne : Nat := Nat.pow 2 unitScale

/-- The number of values between two powers of two. -/
def binade : Nat := Nat.pow 2 52

/-- The bit pattern of positive infinity. -/
def infinityBits : Nat := 2047 * binade

/-- The bit of the sign. -/
def signBit : Nat := Nat.pow 2 63

/-- The bit pattern of a number without its sign. -/
def magnitudeBits (x : Float) : Nat := x.toBits.toNat % signBit

/-- The sign bit is set. -/
def isNegative (x : Float) : Bool := signBit ≤ x.toBits.toNat

/-- The size in units that a bit pattern below infinity stands for. -/
def unitsOfBits (bits : Nat) : Nat :=
  if bits < binade then bits else (binade + bits % binade) * Nat.pow 2 (bits / binade - 1)

/-- The size of a finite number in units. -/
def units (x : Float) : Nat := unitsOfBits (magnitudeBits x)

/-- The bit pattern nearest to `n / d` units: a quotient of more than 53 bits keeps its first 53. -/
def bitsOfUnitRatio (n d : Nat) : Nat :=
  let shift := (n / d).log2 + 1 - 53
  min (shift * binade + roundDiv n (d * Nat.pow 2 shift)) infinityBits

/-- The number with the sign and the bit pattern. -/
def ofSignBits (negative : Bool) (bits : Nat) : Float :=
  Float.ofBits (UInt64.ofNat (if negative then signBit + bits else bits))

/-- The number nearest to `n / d` units. -/
def ofUnitRatio (negative : Bool) (n d : Nat) : Float :=
  ofSignBits negative (bitsOfUnitRatio n d)

/-- The number nearest to `n / d`. -/
def ofRatio (n d : Nat) : Float :=
  ofUnitRatio false (n * unitsInOne) d

/-- Positive infinity. -/
def infinity : Float := ofSignBits false infinityBits

/-- The value that is no number. -/
def notANumber : Float := Float.ofBits 0x7FF8000000000000

/-- The first decimal exponent whose power is above every finite number. -/
def decimalCeiling : Int := 310

/-- A decimal exponent whose power is below half a unit. -/
def decimalFloor : Int := -330

/-- The number nearest to `digits * 10 ^ exponent`. Exponents far outside the range are decided without the power. -/
def ofDecimal (digits : Nat) (exponent : Int) : Float :=
  if digits = 0 then ofSignBits false 0
  else if decimalCeiling ≤ exponent then infinity
  else if 0 ≤ exponent then ofRatio (digits * Nat.pow 10 exponent.toNat) 1
  else if (digits.log2 + 1 : Nat) + exponent < decimalFloor then ofSignBits false 0
  else ofRatio digits (Nat.pow 10 (-exponent).toNat)

/-- The remainder of the division truncated toward zero, with the sign of the dividend. It is exact: a remainder of
whole numbers of units has no more bits than one of them. -/
def remainder (x y : Float) : Float :=
  if x.isNaN || y.isNaN || x.isInf then notANumber
  else if y.isInf then x
  else if units y = 0 then notANumber
  else ofUnitRatio (isNegative x) (units x % units y) 1

end InfixCalculator.Number
