import InfixCalculator.Number.Digits
import InfixCalculator.Operator

/-!
# Failures of a calculation

* `Failure` lists the ways in which an expression can fail to have a value, with what is known of each.
* `Failure.message`, `Failure.code` and `Failure.kind` describe a failure.
* `FailureKind.parent?` makes a tree of the kinds, and `FailureKind.lineage` lists the kinds above one.
* `Diagnostic` is a word that was replaced by zero so that the calculation could go on.
* `Fault` is all that can stop a calculation: a failure of the expression, or a request that makes no sense.
-/

namespace InfixCalculator

/-- A position in a message; a token that comes from no expression has none. -/
def positionText : Option Nat → String
  | some p => Number.wholeText p
  | none => "None"

/-- The kinds of failure. -/
inductive FailureKind where
  | calculator
  | imbalanced
  | unmatched
  | unparseable
  | evaluation
  | underflow
  | empty
  | malformed
  deriving DecidableEq

namespace FailureKind

/-- All kinds. -/
def all : List FailureKind :=
  [calculator, imbalanced, unmatched, unparseable, evaluation, underflow, empty, malformed]

/-- The name of the kind. -/
def name : FailureKind → String
  | calculator => "CalculatorError"
  | imbalanced => "ImbalancedParenthesesError"
  | unmatched => "UnmatchedParenthesisError"
  | unparseable => "UnparseableOperandError"
  | evaluation => "EvaluationError"
  | underflow => "StackUnderflowError"
  | empty => "EmptyExpressionError"
  | malformed => "MalformedExpressionError"

/-- The kind with the name. -/
def ofName? (s : String) : Option FailureKind :=
  all.find? fun kind => kind.name == s

/-- The kind of which a kind is a special case. -/
def parent? : FailureKind → Option FailureKind
  | calculator => none
  | imbalanced | unmatched | unparseable | evaluation => some calculator
  | underflow | empty | malformed => some evaluation

/-- The kind and all those above it, the most special first. -/
def lineage (kind : FailureKind) : List FailureKind :=
  match kind.parent? with
  | none => [kind]
  | some above => kind :: above :: above.parent?.toList

/-- The code by which a program tells the kinds apart. -/
def code : FailureKind → String
  | calculator | evaluation => "CALCULATOR_ERROR"
  | imbalanced => "IMBALANCED_PARENTHESES"
  | unmatched => "UNMATCHED_PARENTHESIS"
  | unparseable => "UNPARSEABLE_OPERAND"
  | underflow => "STACK_UNDERFLOW"
  | empty => "EMPTY_EXPRESSION"
  | malformed => "MALFORMED_EXPRESSION"

/-- The message of a failure of which nothing but its kind is known. -/
def plainMessage : FailureKind → String
  | imbalanced => "Parentheses are imbalanced, please try again"
  | unmatched => "Unmatched parenthesis in expression"
  | empty => "Nothing to evaluate"
  | _ => ""

end FailureKind

/-- The two parentheses. -/
inductive Paren where
  | left
  | right
  deriving DecidableEq

/-- The text of a parenthesis. -/
def Paren.symbol : Paren → String
  | left => "("
  | right => ")"

/-- The ways in which an expression can fail to have a value. -/
inductive Failure where
  /-- The numbers of left and of right parentheses differ. -/
  | imbalanced
  /-- The parenthesis has no partner. -/
  | unmatched (paren : Paren) (position : Option Nat)
  /-- The word is no operand, and the policy is not to replace it. -/
  | unparseable (token : String) (position : Option Nat)
  /-- The token cannot stand in a reverse Polish sequence. -/
  | unexpected (token : String)
  /-- The operator finds fewer than two values. -/
  | underflow (operator : String) (available : Nat)
  /-- There is no value at the end. -/
  | empty
  /-- There are several values at the end, and only one is allowed. -/
  | malformed (remaining : Nat)
  deriving DecidableEq

/-- A word that is no operand, with where it begins. -/
structure Diagnostic where
  token : String
  position : Option Nat
  deriving DecidableEq

/-- The message of a diagnostic. -/
def Diagnostic.message (d : Diagnostic) : String :=
  "Cannot parse operand '" ++ d.token ++ "' at position " ++ positionText d.position

namespace Failure

/-- The kind of a failure. -/
def kind : Failure → FailureKind
  | imbalanced => .imbalanced
  | unmatched _ _ => .unmatched
  | unparseable _ _ => .unparseable
  | unexpected _ => .evaluation
  | underflow _ _ => .underflow
  | empty => .empty
  | malformed _ => .malformed

/-- The code of a failure. -/
def code (f : Failure) : String :=
  f.kind.code

/-- The number of values left over, as a message. -/
def remainingMessage (remaining : Nat) : String :=
  "Stack has " ++ Number.wholeText remaining ++ " elements after evaluation, expected 1"

/-- The message of a failure. -/
def message : Failure → String
  | imbalanced => FailureKind.imbalanced.plainMessage
  | unmatched paren position => "Unmatched '" ++ paren.symbol ++ "' at position " ++ positionText position
  | unparseable token none => "Cannot parse operand '" ++ token ++ "'"
  | unparseable token (some p) => (Diagnostic.mk token (some p)).message
  | unexpected token => "Unexpected token '" ++ token ++ "' in RPN sequence"
  | underflow operator available =>
    "Operator '" ++ operator ++ "' needs 2 operands, " ++ Number.wholeText available ++ " available"
  | empty => FailureKind.empty.plainMessage
  | malformed remaining => remainingMessage remaining

end Failure

/-- What can stop a calculation. -/
inductive Fault where
  /-- The expression has no value. -/
  | failure (f : Failure)
  /-- A symbol belongs to no operator. -/
  | unknownOperator (u : Operator.Unknown)
  /-- The policy that was asked for does not exist. -/
  | unknownPolicy (given : String)
  deriving DecidableEq

end InfixCalculator
