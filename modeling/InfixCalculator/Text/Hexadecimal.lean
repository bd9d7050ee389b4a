/-!
# Hexadecimal digits

* `hexadecimal width n` writes `n` in lower-case hexadecimal with at least `width` digits.
* `hexDigit?` is the value of one hexadecimal digit, in either case.
-/

namespace InfixCalculator.Text

/-- The number in lower-case hexadecimal, padded with zeros to the width. -/
def hexadecimal (width n : Nat) : List Char :=
  let digits := Nat.toDigits 16 n
  List.replicate (width - digits.length) '0' ++ digits

/-- The value of a hexadecimal digit. -/
def hexDigit? (c : Char) : Option Nat :=
  if '0' ≤ c ∧ c ≤ '9' then some (c.toNat - '0'.toNat)
  else if 'a' ≤ c ∧ c ≤ 'f' then some (c.toNat - 'a'.toNat + 10)
  else if 'A' ≤ c ∧ c ≤ 'F' then some (c.toNat - 'A'.toNat + 10)
  else none

end InfixCalculator.Text
