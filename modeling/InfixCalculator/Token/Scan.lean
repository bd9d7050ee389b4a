import InfixCalculator.Token.Classify

/-!
# Tokens of an expression

An expression is cut at its delimiters: the space, the parentheses and the operators of one character. Each delimiter
but the space is a token, and so is each longest run of other characters.

* `scan` reads characters with the run that is still open.
* `tokenize` lists the tokens of an expression.
-/

namespace InfixCalculator

/-- The characters that separate words without being operators. -/
def separators : List Char :=
  [' ', '(', ')']

/-- The text is a separator. -/
def isSeparator (s : String) : Bool :=
  (separators.map String.singleton).contains s

/-- The character ends a run. -/
def isDelimiter (c : Char) : Bool :=
  separators.contains c || (Operator.ofChar? c).isSome

/-- The tokens of a delimiter: none for a space, and else one. -/
def delimiterTokens (position : Nat) (c : Char) : List Token :=
  if c = ' ' then []
  else if c = '(' then [{ kind := .leftParen, text := String.singleton c, position := some position }]
  else if c = ')' then [{ kind := .rightParen, text := String.singleton c, position := some position }]
  else [{ kind := .operator, text := String.singleton c, position := some position }]

/-- The tokens of a run that ends before a position: none if it is empty, and else one. The last character of the run
comes first. -/
def runTokens (position : Nat) : List Char → List Token
  | [] => []
  | run => [classify run.reverse (some (position - run.length))]

/-- The tokens of the characters from a position on, after a run that is still open. -/
def scan (position : Nat) (run : List Char) : List Char → List Token
  | [] => runTokens position run
  | c :: cs =>
    if isDelimiter c then runTokens position run ++ delimiterTokens position c ++ scan (position + 1) [] cs
    else scan (position + 1) (c :: run) cs

/-- The tokens of an expression, in order. -/
def tokenize (expression : String) : List Token :=
  scan 0 [] expression.toList

end InfixCalculator
