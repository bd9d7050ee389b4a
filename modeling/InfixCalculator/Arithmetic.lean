import InfixCalculator.Number.Binary64
import InfixCalculator.Operator

/-!
# Arithmetic of the operators

Every operator is a total function on doubles: a division by zero is infinite or no number, and nothing fails.

* `raise` is exact for the exponents 2, -1, 1, 0 and 0.5; a base of size one with an infinite exponent is no number.
* `root n x` is the `n`-th root of `x`, as the power of the reciprocal; the degree comes first.
* `Operator.apply` is the function of an operator.
-/

namespace InfixCalculator

open Number

/-- The power of a base. -/
def raise (base exponent : Float) : Float :=
  if base.abs == 1 && exponent.isInf then notANumber
  else if exponent == 2 then base * base
  else if exponent == -1 then 1 / base
  else if exponent == 1 then base
  else if exponent == 0 then 1
  else if exponent == 0.5 then base.sqrt
  else base.pow exponent

/-- The root of a degree: the radicand to the power of the degree's reciprocal. -/
def root (degree radicand : Float) : Float :=
  raise radicand (1 / degree)

/-- The value of an operator at its left and its right operand. -/
def Operator.apply : Operator → Float → Float → Float
  | .sqrt => root
  | .power => raise
  | .times => fun x y => x * y
  | .divide => fun x y => x / y
  | .modulo => remainder
  | .plus => fun x y => x + y
  | .minus => fun x y => x - y

end InfixCalculator
