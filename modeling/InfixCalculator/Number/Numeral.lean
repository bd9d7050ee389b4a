import InfixCalculator.Number.Binary64
import InfixCalculator.Number.Digits

/-!
# Numerals

A numeral is an unsigned decimal literal: digits with an optional point and further digits, or a point and digits,
each with an optional unsigned exponent. Only the digits of ASCII count, and nothing may follow.

* `Numeral.read?` reads a numeral that makes up the whole text.
* `Numeral.value` is the double nearest to the number that the numeral denotes.
-/

namespace InfixCalculator.Number

/-- The digit strings of an unsigned decimal literal. -/
structure Numeral where
  whole : List Char
  fraction : List Char
  exponent : List Char
  deriving DecidableEq

namespace Numeral

/-- The digits after a point at the front of the text, and the text after them. -/
def readFraction : List Char → List Char × List Char
  | '.' :: cs => (cs.takeWhile isDigit, cs.dropWhile isDigit)
  | cs => ([], cs)

/-- The exponent digits when the text is an exponent; no text is no exponent. -/
def readExponent? : List Char → Option (List Char)
  | [] => some []
  | c :: cs => if (c = 'e' ∨ c = 'E') ∧ cs ≠ [] ∧ cs.all isDigit then some cs else none

/-- The numeral that the whole text is, if it is one. -/
def read? (cs : List Char) : Option Numeral :=
  let whole := cs.takeWhile isDigit
  let (fraction, rest) := readFraction (cs.dropWhile isDigit)
  if whole = [] ∧ fraction = [] then none
  else (readExponent? rest).map fun exponent => ⟨whole, fraction, exponent⟩

/-- The number without its point, as a whole number. -/
def significand (n : Numeral) : Nat :=
  digitsValue (n.whole ++ n.fraction)

/-- The power of ten by which the significand counts. -/
def scale (n : Numeral) : Int :=
  (digitsValue n.exponent : Int) - n.fraction.length

/-- The double nearest to the number. -/
def value (n : Numeral) : Float :=
  ofDecimal n.significand n.scale

end Numeral

end InfixCalculator.Number
