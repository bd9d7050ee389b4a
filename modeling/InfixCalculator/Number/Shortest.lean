import InfixCalculator.Number.Numeral

/-!
# Shortest decimals

* `shortest x` is the decimal with the fewest digits that reads back as the finite positive number `x`, the nearest
  of those, and the one with an even last digit of two equally near.
* `firstReadingBack_reads_back`: what the search finds reads back as the number.
-/

namespace InfixCalculator.Number

/-- The decimal number `digits * 10 ^ exponent`. -/
structure Decimal where
  digits : Nat
  exponent : Int
  deriving DecidableEq

namespace Decimal

/-- The double nearest to the decimal. -/
def value (d : Decimal) : Float :=
  ofDecimal d.digits d.exponent

/-- The decimal without trailing zeros among its digits; `fuel` bounds their number. -/
def stripZeros : Nat → Decimal → Decimal
  | 0, d => d
  | fuel + 1, d =>
    if d.digits ≠ 0 ∧ d.digits % 10 = 0 then stripZeros fuel ⟨d.digits / 10, d.exponent + 1⟩ else d

/-- The digit string. -/
def digitString (d : Decimal) : List Char :=
  digitsOf d.digits

/-- The exponent of the first digit: `d.ddd * 10 ^ e`. -/
def leadingExponent (d : Decimal) : Int :=
  d.digitString.length - 1 + d.exponent

end Decimal

/-- The dividend and the divisor of `n / d` counted in steps of `10 ^ exponent`. -/
def inSteps (n d : Nat) (exponent : Int) : Nat × Nat :=
  if 0 ≤ exponent then (n, d * Nat.pow 10 exponent.toNat) else (n * Nat.pow 10 (-exponent).toNat, d)

/-- The quotient `n / d` is at least `10 ^ exponent`. -/
def reachesPower (n d : Nat) (exponent : Int) : Bool :=
  let (n, d) := inSteps n d exponent
  d ≤ n

/-- The exponent of the first digit of `n / d`. The numbers of digits tell it up to one. -/
def decimalExponent (n d : Nat) : Int :=
  let above : Int := (digitsOf n).length - (digitsOf d).length
  if reachesPower n d above then above else above - 1

/-- The two neighbours of `n / d` among the multiples of `10 ^ exponent`, the nearer first. -/
def neighbours (n d : Nat) (exponent : Int) : List Decimal :=
  let (n, d) := inSteps n d exponent
  let low : Decimal := ⟨n / d, exponent⟩
  let high : Decimal := ⟨n / d + 1, exponent⟩
  if roundDiv n d = n / d then [low, high] else [high, low]

/-- The largest number of digits that the shortest decimal of a double can need. -/
def longestDecimal : Nat := 17

/-- The decimals to try for `n / d`, from one digit to the longest. -/
def candidates (n d : Nat) : List Decimal :=
  let lead := decimalExponent n d
  (List.range longestDecimal).flatMap fun (more : Nat) => neighbours n d (lead - more)

/-- The exact decimal value of a number of units. -/
def exactDecimal (n : Nat) : Decimal :=
  ⟨n * Nat.pow 5 unitScale, -unitScale⟩

/-- The first of the decimals that reads back as the size of the number, or else the last resort. -/
def firstReadingBack (x : Float) (tried : List Decimal) (lastResort : Decimal) : Decimal :=
  (tried.find? fun d => magnitudeBits d.value == magnitudeBits x).getD lastResort

/-- What the search finds reads back as the size of the number, if the last resort does. -/
theorem firstReadingBack_reads_back {x : Float} {tried : List Decimal} {lastResort : Decimal}
    (h : magnitudeBits lastResort.value = magnitudeBits x) :
    magnitudeBits (firstReadingBack x tried lastResort).value = magnitudeBits x := by
  unfold firstReadingBack
  cases hd : tried.find? fun d => magnitudeBits d.value == magnitudeBits x with
  | none => exact h
  | some d => simpa using List.find?_some hd

/-- The shortest decimal that reads back as the size of the number. The exact decimal is there for the search to be
total: one of at most seventeen digits always reads back. -/
def shortest (x : Float) : Decimal :=
  let n := units x
  let tried := (candidates n unitsInOne).map (Decimal.stripZeros longestDecimal)
  firstReadingBack x tried (exactDecimal n)

end InfixCalculator.Number
