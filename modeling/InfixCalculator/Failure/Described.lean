import InfixCalculator.Failure
import InfixCalculator.Json.Basic

/-!
# Failures described by values

A failure can also be put together by hand, from its kind and values for what is to be known of it. The values may be
of any kind, and are kept as they are.

* `FailureKind.describe` gives the description of a failure, or says which values are missing or too many.
-/

namespace InfixCalculator

namespace FailureKind

/-- What a kind of failure has to be told, or may be told: then with the value that counts if it is not. -/
structure Parameter where
  name : String
  byDefault : Option Json := none

/-- A parameter that has to be told. -/
def Parameter.isRequired (p : Parameter) : Bool :=
  p.byDefault.isNone

/-- The kind that says what a kind has to be told. -/
def model : FailureKind → FailureKind
  | evaluation => calculator
  | kind => kind

/-- What a kind of failure has to be told, in order. -/
def parameters : FailureKind → List Parameter
  | calculator | evaluation => [⟨"message", none⟩, ⟨"code", some (.text calculator.code)⟩]
  | imbalanced => [⟨"message", some (.text imbalanced.plainMessage)⟩]
  | unmatched => [⟨"message", some (.text unmatched.plainMessage)⟩]
  | empty => [⟨"message", some (.text empty.plainMessage)⟩]
  | unparseable => [⟨"token", none⟩, ⟨"position", some .null⟩]
  | underflow => [⟨"operator", none⟩, ⟨"available", none⟩]
  | malformed => [⟨"remaining", none⟩]

/-- What can be wrong with the values for a failure. -/
inductive ArgumentFault where
  | missing (kind : FailureKind) (names : List String)
  | tooMany (kind : FailureKind) (least most given : Nat)
  deriving DecidableEq

/-- Names in a message; no kind of failure has to be told more than two things. -/
def nameList (names : List String) : String :=
  " and ".intercalate (names.map fun name => "'" ++ name ++ "'")

/-- A number of values in a message; the failure itself counts as one. -/
def countText (least most : Nat) : String :=
  if least = most then Number.wholeText (most + 1)
  else "from " ++ Number.wholeText (least + 1) ++ " to " ++ Number.wholeText (most + 1)

/-- The message of a fault. -/
def ArgumentFault.message : ArgumentFault → String
  | missing kind names =>
    kind.name ++ ".__init__() missing " ++ Number.wholeText names.length ++ " required positional argument" ++
      (if names.length = 1 then "" else "s") ++ ": " ++ nameList names
  | tooMany kind least most given =>
    kind.name ++ ".__init__() takes " ++ countText least most ++ " positional arguments but " ++
      Number.wholeText (given + 1) ++ " were given"

/-- The values of parameters, in order: those given, and then those that count by default. -/
def fillIn : List Parameter → List Json → List Json
  | [], _ => []
  | p :: ps, [] => p.byDefault.getD .null :: fillIn ps []
  | _ :: ps, v :: vs => v :: fillIn ps vs

/-- The values of a kind's parameters. -/
def arguments (kind : FailureKind) (given : List Json) : Except ArgumentFault (List Json) :=
  let required := kind.parameters.filter Parameter.isRequired
  let missing := required.drop given.length
  if kind.parameters.length < given.length then
    .error (.tooMany kind.model required.length kind.parameters.length given.length)
  else if !missing.isEmpty then .error (.missing kind.model (missing.map Parameter.name))
  else .ok (fillIn kind.parameters given)

/-- The description of a failure: its message, its code, and what else is known of it, each under its name. -/
structure Description where
  kind : FailureKind
  message : String
  code : Json
  details : List (String × Json)

/-- The message of a failure of some kind with the values for its parameters. -/
def describedMessage : FailureKind → List Json → String
  | unparseable, [token, .null] => "Cannot parse operand '" ++ token.plain ++ "'"
  | unparseable, [token, position] => "Cannot parse operand '" ++ token.plain ++ "' at position " ++ position.plain
  | underflow, [operator, available] =>
    "Operator '" ++ operator.plain ++ "' needs 2 operands, " ++ available.plain ++ " available"
  | malformed, [remaining] => "Stack has " ++ remaining.plain ++ " elements after evaluation, expected 1"
  | _, message :: _ => message.plain
  | _, [] => ""

/-- The code of a failure of some kind with the values for its parameters. -/
def describedCode : FailureKind → List Json → Json
  | calculator, [_, code] | evaluation, [_, code] => code
  | kind, _ => .text kind.code

/-- What is known of a failure besides its message and its code. -/
def describedDetails (kind : FailureKind) (values : List Json) : List (String × Json) :=
  match kind with
  | unparseable | underflow | malformed => (kind.parameters.map Parameter.name).zip values
  | _ => []

/-- The description of a failure of some kind, from the values given for it. -/
def describe (kind : FailureKind) (given : List Json) : Except ArgumentFault Description :=
  (kind.arguments given).map fun values =>
    ⟨kind, kind.describedMessage values, kind.describedCode values, kind.describedDetails values⟩

end FailureKind

end InfixCalculator
