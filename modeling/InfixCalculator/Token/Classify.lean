import InfixCalculator.Number.Numeral
import InfixCalculator.Text.Blank
import InfixCalculator.Text.LowerCase
import InfixCalculator.Token.Basic

/-!
# Classification of words

* `classify` gives the token of a word: an operator if it is a symbol exactly, a constant if it is the name of one in
  any letter case, a number if a numeral is left after the blanks around it are taken away, and a term otherwise.
-/

namespace InfixCalculator

/-- The named constants, in lower case. -/
def constants : List (String × Float) :=
  [("pi", 3.141592653589793)]

/-- The value of the constant that the word names, in any letter case. -/
def constant? (word : List Char) : Option Float :=
  constants.lookup (String.ofList (Text.lower word))

/-- The value of the numeral that the word is, blanks around it apart. -/
def numeral? (word : List Char) : Option Float :=
  (Number.Numeral.read? (Text.trim word)).map Number.Numeral.value

/-- What a word is. -/
def kindOf (word : List Char) : TokenKind :=
  if (Operator.ofSymbol? (String.ofList word)).isSome then .operator
  else
    match constant? word, numeral? word with
    | some x, _ => .constant x
    | none, some x => .number x
    | none, none => .term

/-- The token of a word. -/
def classify (word : List Char) (position : Option Nat) : Token :=
  { kind := kindOf word, text := String.ofList word, position := position }

end InfixCalculator
