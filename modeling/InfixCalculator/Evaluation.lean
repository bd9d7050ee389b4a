import InfixCalculator.Arithmetic
import InfixCalculator.Failure
import InfixCalculator.Journal
import InfixCalculator.Token.Basic

/-!
# Evaluation of a reverse Polish sequence

Numbers are pushed on a stack of values, and an operator replaces the two values on top by its own.

* `step` takes one token, `run` takes all of them.
* `evaluate` gives the value on top at the end; whether values may be left below it is for the caller to say.
* `Evaluation.journal` is what an evaluation reports.
-/

namespace InfixCalculator

namespace Evaluation

/-- The stack after one token; its top comes first, and the top is the right operand. -/
def step (stack : List Float) (t : Token) : Except Fault (List Float) :=
  match t.kind with
  | .number x => .ok (x :: stack)
  | .operator =>
    match stack with
    | y :: x :: rest =>
      match Operator.find t.text with
      | .ok op => .ok (op.apply x y :: rest)
      | .error u => .error (.unknownOperator u)
    | _ => .error (.failure (.underflow t.text stack.length))
  | _ => .error (.failure (.unexpected t.text))

/-- The stack after all tokens. -/
def run (stack : List Float) : List Token → Except Fault (List Float)
  | [] => .ok stack
  | t :: ts =>
    match step stack t with
    | .ok stack' => run stack' ts
    | .error e => .error e

/-- The value that a final stack stands for. -/
def top (allowPartial : Bool) : List Float → Except Fault Float
  | [] => .error (.failure .empty)
  | [x] => .ok x
  | x :: rest => if allowPartial then .ok x else .error (.failure (.malformed (rest.length + 1)))

/-- The value of a reverse Polish sequence. -/
def evaluate (allowPartial : Bool) (tokens : List Token) : Except Fault Float :=
  match run [] tokens with
  | .ok stack => top allowPartial stack
  | .error e => .error e

/-! ## The journal -/

/-- What is reported of a final stack with some number of values below the top. -/
def leftoverJournal (allowPartial : Bool) (depth : Nat) (tokens : List Token) : Journal :=
  if allowPartial then
    [⟨.partialValue, "Partial expression with " ++ Number.wholeText depth ++ " stack elements, using top value"⟩]
  else
    [⟨.leftover, Failure.remainingMessage depth⟩,
      ⟨.leftoverSequence, "RPN expression: " ++ " ".intercalate (texts tokens)⟩]

/-- What an evaluation reports: a lack of operands, an empty stack, or values left over. -/
def journal (allowPartial : Bool) (tokens : List Token) : Journal :=
  match run [] tokens with
  | .error (.failure (.underflow operator _)) => [⟨.underflow, "Insufficient operands for " ++ operator⟩]
  | .error _ => []
  | .ok [] => [⟨.noValue, "Empty stack after evaluation"⟩]
  | .ok [_] => []
  | .ok stack => leftoverJournal allowPartial stack.length tokens

end Evaluation

end InfixCalculator
