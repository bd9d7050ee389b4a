import InfixCalculator.Failure
import InfixCalculator.Journal
import InfixCalculator.Text.Quoted
import InfixCalculator.Token.Basic

/-!
# Conversion to reverse Polish order

Operands go straight to the output. Operators and left parentheses wait; a waiting operator leaves before an operator
that does not bind tighter, and a right parenthesis releases all that waits since its partner.

* `step` takes one token: it says what is put out and what waits then. `run` takes tokens until one is refused, and
  `finish` releases what still waits at the end.
* `convert` is the whole conversion, and `Conversion.journal` what it reports.
-/

namespace InfixCalculator

/-- What to do with a word that is no operand: replace it by zero, or refuse it. -/
inductive Policy where
  | recover
  | raise
  deriving DecidableEq

namespace Policy

/-- All policies. -/
def all : List Policy :=
  [recover, raise]

/-- The name of the policy. -/
def name : Policy → String
  | recover => "recover"
  | raise => "raise"

/-- The policy with the name. -/
def ofName? (s : String) : Option Policy :=
  all.find? fun policy => policy.name == s

end Policy

/-- Tokens in reverse Polish order, and the words that were replaced by zero. -/
structure Postfix where
  tokens : List Token := []
  diagnostics : List Diagnostic := []

namespace Postfix

/-- Output followed by further output. -/
def append (a b : Postfix) : Postfix :=
  ⟨a.tokens ++ b.tokens, a.diagnostics ++ b.diagnostics⟩

instance : Append Postfix := ⟨append⟩

theorem tokens_append (a b : Postfix) : (a ++ b).tokens = a.tokens ++ b.tokens := rfl

theorem diagnostics_append (a b : Postfix) : (a ++ b).diagnostics = a.diagnostics ++ b.diagnostics := rfl

end Postfix

namespace Conversion

/-- The waiting operators that leave before an incoming one, and what goes on waiting. -/
def released (incoming : String) : List Token → Except Operator.Unknown (List Token × List Token)
  | [] => .ok ([], [])
  | t :: rest =>
    if t.isOperator then
      match Operator.symbolYields incoming t.text with
      | .error u => .error u
      | .ok false => .ok ([], t :: rest)
      | .ok true =>
        match released incoming rest with
        | .error u => .error u
        | .ok (gone, kept) => .ok (t :: gone, kept)
    else .ok ([], t :: rest)

/-- The number zero in place of a word. -/
def substitute (position : Option Nat) : Token :=
  Token.ofNumber 0 (some "0") position

/-- The tokens before the latest left parenthesis that waits, and those after it; none if there is no such
parenthesis. -/
def closed? : List Token → Option (List Token × List Token)
  | [] => none
  | t :: rest => if t.isLeftParen then some ([], rest) else (closed? rest).map fun (gone, kept) => (t :: gone, kept)

/-- The conversion of one token, given what waits, the latest first: what is put out, and what waits then. -/
def step (policy : Policy) (waiting : List Token) (t : Token) : Except Fault (Postfix × List Token) :=
  match t.kind with
  | .leftParen => .ok ({}, t :: waiting)
  | .rightParen =>
    match closed? waiting with
    | none => .error (.failure (.unmatched .right t.position))
    | some (gone, kept) => .ok ({ tokens := gone }, kept)
  | .operator =>
    match released t.text waiting with
    | .error u => .error (.unknownOperator u)
    | .ok (gone, kept) => .ok ({ tokens := gone }, t :: kept)
  | .constant x => .ok ({ tokens := [Token.ofNumber x none t.position] }, waiting)
  | .number _ => .ok ({ tokens := [t] }, waiting)
  | .term =>
    match policy with
    | .raise => .error (.failure (.unparseable t.text t.position))
    | .recover => .ok (⟨[substitute t.position], [⟨t.text, t.position⟩]⟩, waiting)

/-- How far a conversion comes: what is put out, and what waits in the end or what stopped it. -/
structure Run where
  output : Postfix
  ending : Except Fault (List Token)

/-- The conversion of tokens until one is refused. -/
def run (policy : Policy) (waiting : List Token) : List Token → Run
  | [] => ⟨{}, .ok waiting⟩
  | t :: ts =>
    match step policy waiting t with
    | .error e => ⟨{}, .error e⟩
    | .ok (out, waiting) =>
      let rest := run policy waiting ts
      ⟨out ++ rest.output, rest.ending⟩

/-- What is put out once there are no more tokens: all that waits, unless a left parenthesis is among it. -/
def finish (waiting : List Token) : Except Fault Postfix :=
  match waiting.find? Token.isLeftParen with
  | some t => .error (.failure (.unmatched .left t.position))
  | none => .ok { tokens := waiting }

/-- The tokens in reverse Polish order. -/
def convert (policy : Policy) (tokens : List Token) : Except Fault Postfix :=
  let run := run policy [] tokens
  match run.ending with
  | .error e => .error e
  | .ok waiting => (finish waiting).map (run.output ++ ·)

/-! ## The journal -/

/-- The report of a word replaced by zero. -/
def substitutionRecord (d : Diagnostic) : Record :=
  ⟨.substituted, d.message ++ ", substituting 0"⟩

/-- What a conversion reports: each word replaced before it ends, and its output if there is one. -/
def journal (policy : Policy) (tokens : List Token) : Journal :=
  let replaced := (run policy [] tokens).output.diagnostics.map substitutionRecord
  match convert policy tokens with
  | .ok out => replaced ++ [⟨.converted, "RPN: " ++ Text.quotedList (texts out.tokens)⟩]
  | .error _ => replaced

end Conversion

end InfixCalculator
