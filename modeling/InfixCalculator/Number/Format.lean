import InfixCalculator.Number.Shortest
import InfixCalculator.Number.Written

/-!
# Number formats

* `fixed`, `exponential` and `general` write a size with a given number of places or significant digits, rounded to
  the nearest with ties to the even digit.
* A `Format` is one of these notations with a precision; `Format.size` writes the size of a double in it, and
  `signed` puts the sign before.
* `withinWidth` fills a text with a sign up to a width.
-/

namespace InfixCalculator.Number

/-- The digits with a point before the last `places`; a whole number has a point only if it is kept. -/
def withPoint (keepPoint : Bool) (places : Nat) (digits : List Char) : List Char :=
  let digits := padDigits (places + 1) digits
  let whole := digits.take (digits.length - places)
  if places = 0 then (if keepPoint then whole ++ ['.'] else whole)
  else whole ++ '.' :: digits.drop (digits.length - places)

/-- The size `n / d` with a fixed number of places. -/
def fixed (keepPoint : Bool) (places n d : Nat) : List Char :=
  withPoint keepPoint places (digitsOf (roundDiv (n * Nat.pow 10 places) d))

/-- The size `n / d` rounded to `places` digits after the first, and the exponent of its first digit. -/
def roundSignificant (places n d : Nat) : Nat × Int :=
  if n = 0 then (0, 0)
  else
    let lead := decimalExponent n d
    let (n, d) := inSteps n d (lead - places)
    let rounded := roundDiv n d
    if rounded = Nat.pow 10 (places + 1) then (Nat.pow 10 places, lead + 1) else (rounded, lead)

/-- The size `n / d` in scientific notation with `places` digits after the point. -/
def exponential (keepPoint : Bool) (places n d : Nat) : List Char :=
  let (digits, e) := roundSignificant places n d
  withPoint keepPoint places (digitsOf digits) ++ exponentText 'e' 2 e

/-- The text without the zeros at its end. -/
def stripTrailingZeros (cs : List Char) : List Char :=
  (cs.reverse.dropWhile (· == '0')).reverse

/-- A mantissa without the zeros at the end of its fraction, and without a point that this leaves bare. -/
def stripFraction (cs : List Char) : List Char :=
  if cs.contains '.' then
    let stripped := stripTrailingZeros cs
    if stripped.getLast? = some '.' then stripped.dropLast else stripped
  else cs

/-- The size `n / d` with `precision` significant digits: positional for exponents from -4 to below the precision.
The zeros at the end of the fraction go, unless the point is kept. -/
def general (keepPoint : Bool) (precision n d : Nat) : List Char :=
  let precision := max precision 1
  let (digits, e) := roundSignificant (precision - 1) n d
  let strip := if keepPoint then id else stripFraction
  if -4 ≤ e ∧ e < precision then
    strip (fixed keepPoint (precision - 1 - e).toNat n d)
  else
    strip (withPoint keepPoint (precision - 1) (digitsOf digits)) ++ exponentText 'e' 2 e

/-- A positional text with a zero after its point, which is put there if it is missing. -/
def withFraction (cs : List Char) : List Char :=
  if cs.getLast? = some '.' then cs ++ ['0'] else if cs.contains '.' then cs else cs ++ ['.', '0']

/-- The size `n / d` with `precision` significant digits and always with a fraction in positional notation, which
ends one exponent earlier than in `general`. -/
def generalWithFraction (keepPoint : Bool) (precision n d : Nat) : List Char :=
  let precision := max precision 1
  let (digits, e) := roundSignificant (precision - 1) n d
  let strip := if keepPoint then id else stripFraction
  if -4 ≤ e ∧ e < (precision : Int) - 1 then
    withFraction (strip (fixed keepPoint (precision - 1 - e).toNat n d))
  else
    strip (withPoint keepPoint (precision - 1) (digitsOf digits)) ++ exponentText 'e' 2 e

/-- The notations of a double. -/
inductive Notation where
  | fixed
  | exponential
  | general
  | generalWithFraction
  /-- The shortest digits that read back. -/
  | shortest
  deriving DecidableEq

/-- The greatest precision. -/
def greatestPrecision : Nat := Nat.pow 2 31 - 1

/-- A notation with its precision. -/
structure Format where
  style : Notation
  precision : Nat := 6
  /-- The point is there even if no digits follow it. -/
  keepPoint : Bool := false
  upperCase : Bool := false
  deriving DecidableEq

/-- The shortest digits of a finite size; the point is kept also before an exponent. -/
def shortestSize (keepPoint : Bool) (x : Float) : List Char :=
  let written := writtenSize x
  if keepPoint && !written.contains '.' then
    written.takeWhile (· ≠ 'e') ++ '.' :: written.dropWhile (· ≠ 'e')
  else written

namespace Format

/-- The size of a finite double in the format. -/
def finiteSize (f : Format) (x : Float) : List Char :=
  let n := units x
  match f.style with
  | .fixed => Number.fixed f.keepPoint f.precision n unitsInOne
  | .exponential => Number.exponential f.keepPoint f.precision n unitsInOne
  | .general => Number.general f.keepPoint f.precision n unitsInOne
  | .generalWithFraction => Number.generalWithFraction f.keepPoint f.precision n unitsInOne
  | .shortest => shortestSize f.keepPoint x

/-- The size of a double in the format, without its sign. -/
def size (f : Format) (x : Float) : List Char :=
  let size :=
    if x.isNaN then ['n', 'a', 'n'] else if x.isInf then ['i', 'n', 'f'] else f.finiteSize x
  if f.upperCase then size.map Char.toUpper else size

/-- The double in the format, with a sign if it is negative. -/
def signed (f : Format) (x : Float) : List Char :=
  if isNegative x && !x.isNaN then '-' :: f.size x else f.size x

end Format

/-- Where a text stands in a width. -/
inductive Alignment where
  | left
  | right
  | center
  /-- What fills the width stands between the sign and the digits. -/
  | afterSign
  deriving DecidableEq

/-- A sign and a body, filled up to a width. -/
def withinWidth (alignment : Alignment) (filler : Char) (width : Nat) (sign body : List Char) : List Char :=
  let missing := width - (sign.length + body.length)
  match alignment with
  | .left => sign ++ body ++ List.replicate missing filler
  | .right => List.replicate missing filler ++ sign ++ body
  | .center => List.replicate (missing / 2) filler ++ sign ++ body ++ List.replicate (missing - missing / 2) filler
  | .afterSign => sign ++ List.replicate missing filler ++ body

end InfixCalculator.Number
