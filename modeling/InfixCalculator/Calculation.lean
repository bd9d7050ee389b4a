import InfixCalculator.Conversion
import InfixCalculator.Evaluation
import InfixCalculator.Json.Print
import InfixCalculator.Settings
import InfixCalculator.Token.Scan

/-!
# Calculations

A calculation checks the parentheses of an expression, cuts it into tokens, converts them to reverse Polish order and
evaluates the result.

* `Calculation.ofExpression` is the calculation of an expression, or what stopped it, and `Calculation.journal` what
  is reported on the way.
* `display`, `line` and `dump` show a calculation: the expression, the expression with its result, and everything as
  JSON.
-/

namespace InfixCalculator

/-- What a caller may choose. An unknown policy is a fault only when it comes to be used. -/
structure Options where
  policy : Except Fault Policy := .ok .recover
  allowPartial : Bool := true

/-- The policy that a value names. -/
def Policy.ofJson (j : Json) : Except Fault Policy :=
  match j.text?.bind Policy.ofName? with
  | some policy => .ok policy
  | none => .error (.unknownPolicy j.shown)

/-- The message of an unknown policy. -/
def Policy.unknownMessage (given : String) : String :=
  "on_parse_error must be one of ('recover', 'raise'), got " ++ given

/-- The options of a caller, with the settings for what the caller leaves open. -/
def Settings.options (settings : Settings) (policy : Option Json) (allowPartial : Option Bool) : Options where
  policy := Policy.ofJson (policy.getD settings.onParseError)
  allowPartial := allowPartial.getD settings.allowPartial.truthy

/-- The expression has as many left as right parentheses. -/
def isBalanced (expression : String) : Bool :=
  expression.toList.count '(' == expression.toList.count ')'

/-- The check of the parentheses, which comes before all else. -/
def checkParentheses (expression : String) : Except Failure Unit :=
  if isBalanced expression then .ok () else .error .imbalanced

/-- An expression with its tokens, their reverse Polish order and its value. -/
structure Calculation where
  expression : String
  tokens : List Token
  rpn : Postfix
  result : Float

namespace Calculation

/-- The calculation of an expression. -/
def ofExpression (options : Options) (expression : String) : Except Fault Calculation := do
  if !isBalanced expression then throw (.failure .imbalanced)
  let tokens := tokenize expression
  let policy ← options.policy
  let out ← Conversion.convert policy tokens
  let result ← Evaluation.evaluate options.allowPartial out.tokens
  return ⟨expression, tokens, out, result⟩

/-- The report of the tokens of an expression. -/
def tokensRecord (expression : String) : Record :=
  ⟨.tokenized,
    "Tokenized " ++ Text.quoted expression ++ " into " ++ Text.quotedList (texts (tokenize expression))⟩

/-- What a calculation reports, up to where it stops. -/
def journal (options : Options) (expression : String) : Journal :=
  if !isBalanced expression then []
  else
    let tokens := tokenize expression
    tokensRecord expression ::
      match options.policy with
      | .error _ => []
      | .ok policy =>
        Conversion.journal policy tokens ++
          match Conversion.convert policy tokens with
          | .error _ => []
          | .ok out => Evaluation.journal options.allowPartial out.tokens

/-- The words that were replaced by zero. -/
def diagnostics (c : Calculation) : List Diagnostic :=
  c.rpn.diagnostics

/-- No word was replaced. -/
def ok (c : Calculation) : Bool :=
  c.diagnostics.isEmpty

/-- The texts of the tokens. -/
def tokenTexts (c : Calculation) : List String :=
  texts c.tokens

/-- The texts in reverse Polish order. -/
def rpnTexts (c : Calculation) : List String :=
  texts c.rpn.tokens

/-! ## Showing a calculation -/

/-- The expression, or what the template makes of it if words were replaced. -/
def display (settings : Settings) (c : Calculation) : Except Template.Fault String :=
  if c.ok then .ok c.expression else Template.fill settings.errorTemplate c.expression

/-- The display and the result on one line. -/
def line (settings : Settings) (c : Calculation) : Except Template.Fault String :=
  (c.display settings).map fun display => display ++ " = " ++ Number.written c.result

/-- What a calculation reports when it is shown in detail. -/
def detailJournal (line : String) (c : Calculation) : Journal :=
  [⟨.resultShown, "Result: " ++ line⟩,
    ⟨.tokensShown, "Tokens: " ++ Text.quotedList c.tokenTexts ++ " , RPN: " ++ Text.quotedList c.rpnTexts⟩]

/-- The calculation by the expression that made it. -/
def constructorText (c : Calculation) : String :=
  "Calculator(" ++ Text.quoted c.expression ++ ")"

/-- A list of texts as JSON. -/
def textsJson (texts : List String) : Json :=
  .array (texts.map .text)

/-- A replaced word as JSON. -/
def diagnosticJson (d : Diagnostic) : Json :=
  .object [("token", .text d.token), ("position", .ofNat? d.position), ("message", .text d.message)]

/-- Everything about a calculation as JSON. -/
def toJson (settings : Settings) (c : Calculation) : Except Template.Fault Json :=
  (c.display settings).map fun display =>
    .object [("Original Expression", .text display), ("Tokenized Expression", textsJson c.tokenTexts),
      ("Reverse Polish Notation", textsJson c.rpnTexts), ("Final Result", .real c.result),
      ("Errors", .array (c.diagnostics.map diagnosticJson))]

/-- Everything about a calculation as JSON in writing. -/
def dump (settings : Settings) (c : Calculation) : Except Template.Fault String :=
  (c.toJson settings).map Json.print

end Calculation

end InfixCalculator
