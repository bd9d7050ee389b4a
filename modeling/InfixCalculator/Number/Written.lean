import InfixCalculator.Number.Shortest

/-!
# Written numbers

* `written x` is the text of a double: its shortest decimal, positional for exponents from -4 to 15 and scientific
  otherwise, with a fraction in positional notation and at least two exponent digits in scientific notation.
* `readWritten?` reads such texts, and decimals with any other number of digits.
-/

namespace InfixCalculator.Number

/-- How the digits of a number are laid out. -/
structure Layout where
  /-- The least exponent written positionally. -/
  least : Int
  /-- The first exponent above those written positionally. -/
  bound : Int
  /-- The least number of exponent digits. -/
  exponentWidth : Nat

/-- Numbers are positional from `0.0001` to below `10 ^ 16`; exponents have at least two digits. -/
def plainLayout : Layout := ⟨-4, 16, 2⟩

/-- A digit string padded with zeros at the front. -/
def padDigits (width : Nat) (digits : List Char) : List Char :=
  List.replicate (width - digits.length) '0' ++ digits

/-- An exponent with its sign and at least `width` digits. -/
def exponentText (mark : Char) (width : Nat) (e : Int) : List Char :=
  mark :: (if e < 0 then '-' else '+') :: padDigits width (digitsOf e.natAbs)

/-- The digits with the point after the exponent's place, and a zero wherever a side would be empty. -/
def positional (digits : List Char) (e : Int) : List Char :=
  if e < 0 then '0' :: '.' :: (List.replicate ((-e).toNat - 1) '0' ++ digits)
  else
    let place := e.toNat + 1
    let whole := digits.take place ++ List.replicate (place - digits.length) '0'
    let fraction := digits.drop place
    whole ++ '.' :: (if fraction = [] then ['0'] else fraction)

/-- The digits with the point after the first, without a point when there is one digit only. -/
def scientific (width : Nat) (digits : List Char) (e : Int) : List Char :=
  let fraction := digits.drop 1
  digits.take 1 ++ (if fraction = [] then [] else '.' :: fraction) ++ exponentText 'e' width e

/-- The decimal in the layout. -/
def Layout.write (layout : Layout) (d : Decimal) : List Char :=
  let e := d.leadingExponent
  if layout.least ≤ e ∧ e < layout.bound then positional d.digitString e
  else scientific layout.exponentWidth d.digitString e

/-- The text of a finite size. -/
def writtenSize (x : Float) : List Char :=
  if units x = 0 then ['0', '.', '0'] else plainLayout.write (shortest x)

/-- The text of a double. -/
def written (x : Float) : String :=
  if x.isNaN then "nan"
  else
    let size := if x.isInf then ['i', 'n', 'f'] else writtenSize x
    String.ofList (if isNegative x then '-' :: size else size)

/-! ## Reading -/

/-- The value of an exponent with an optional sign. -/
def readExponentText? : List Char → Option Int
  | '-' :: cs => if cs ≠ [] ∧ cs.all isDigit then some (-(digitsValue cs : Int)) else none
  | '+' :: cs => if cs ≠ [] ∧ cs.all isDigit then some (digitsValue cs : Int) else none
  | cs => if cs ≠ [] ∧ cs.all isDigit then some (digitsValue cs : Int) else none

/-- The double nearest to an unsigned decimal with an optional signed exponent. -/
def readSize? (cs : List Char) : Option Float :=
  let isMark := fun c => c = 'e' || c = 'E'
  let mantissa := cs.takeWhile fun c => !isMark c
  match Numeral.read? mantissa, cs.dropWhile fun c => !isMark c with
  | some n, [] => some n.value
  | some n, _ :: exponent => (readExponentText? exponent).map fun e => ofDecimal n.significand (n.scale + e)
  | none, _ => if cs = ['i', 'n', 'f'] then some infinity else none

/-- The number with the opposite sign. -/
def negate (x : Float) : Float :=
  ofSignBits (!isNegative x) (magnitudeBits x)

/-- The double that a text stands for. -/
def readWritten? (s : String) : Option Float :=
  match s.toList with
  | ['n', 'a', 'n'] => some notANumber
  | '-' :: cs => (readSize? cs).map negate
  | cs => readSize? cs

end InfixCalculator.Number
