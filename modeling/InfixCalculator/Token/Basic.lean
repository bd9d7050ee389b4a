import InfixCalculator.Number.Written
import InfixCalculator.Operator

/-!
# Tokens

A token is a piece of an expression: its kind, its text, and where it begins, counted in characters from zero. Numbers
and constants carry their value in the kind.

* `Token.ofNumber` is the token of a number, by default with the written number as its text.
* `texts` lists the texts of tokens.
-/

namespace InfixCalculator

/-- What a token is. A term is a word that is neither an operator nor a value. -/
inductive TokenKind where
  | number (value : Float)
  | operator
  | leftParen
  | rightParen
  | constant (value : Float)
  | term

namespace TokenKind

/-- The name of the kind. -/
def name : TokenKind → String
  | number _ => "number"
  | operator => "operator"
  | leftParen => "left_paren"
  | rightParen => "right_paren"
  | constant _ => "constant"
  | term => "term"

/-- The value that the kind carries. -/
def value? : TokenKind → Option Float
  | number x => some x
  | constant x => some x
  | _ => none

/-- The kind with the name, given the value of a number or constant. -/
def ofName? (name : String) (value : Option Float) : Option TokenKind :=
  match name, value with
  | "number", some x => some (number x)
  | "constant", some x => some (constant x)
  | "operator", _ => some operator
  | "left_paren", _ => some leftParen
  | "right_paren", _ => some rightParen
  | "term", _ => some term
  | _, _ => none

/-- The names of all kinds, each with its label. -/
def labels : List (String × String) :=
  [("NUMBER", "number"), ("OPERATOR", "operator"), ("LEFT_PAREN", "left_paren"), ("RIGHT_PAREN", "right_paren"),
    ("CONSTANT", "constant"), ("TERM", "term")]

end TokenKind

/-- A piece of an expression. -/
structure Token where
  kind : TokenKind
  text : String
  position : Option Nat := none
  /-- A value that came with a token whose kind has none; it means nothing, and stays with the token. -/
  attached : Option Float := none

namespace Token

/-- The token of a number; without a text it shows the written number. -/
def ofNumber (value : Float) (text : Option String) (position : Option Nat) : Token :=
  { kind := .number value, text := text.getD (Number.written value), position := position }

/-- The token of an operator. -/
def ofOperator (op : Operator) (position : Option Nat) : Token :=
  { kind := .operator, text := op.symbol, position := position }

/-- The token stands for an operator. -/
def isOperator (t : Token) : Bool :=
  match t.kind with
  | .operator => true
  | _ => false

/-- The token opens a group. -/
def isLeftParen (t : Token) : Bool :=
  match t.kind with
  | .leftParen => true
  | _ => false

/-- The value that the token carries. -/
def value? (t : Token) : Option Float :=
  t.kind.value? <|> t.attached

end Token

/-- The texts of tokens. -/
def texts (tokens : List Token) : List String :=
  tokens.map Token.text

end InfixCalculator
