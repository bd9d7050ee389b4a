import InfixCalculator.Calculation

/-!
# Batches of expressions

* `Row.ofExpression` evaluates one expression of a batch. An expression that has no value makes a row with the message
  of its failure; only a fault in the request stops the batch.
* `evaluate` gives the rows of all expressions, in order, and `evaluateJournal` what is reported meanwhile.
-/

namespace InfixCalculator.Batch

/-- One expression of a batch with what came of it. -/
structure Row where
  expression : String
  tokens : Option String
  rpn : Option String
  result : Float
  error : Option String

/-- The names of a row's cells, in order. -/
def columns : List String :=
  ["expression", "tokens", "rpn", "result", "error"]

namespace Row

/-- The row of an expression without a value. -/
def ofFailure (expression : String) (f : Failure) : Row :=
  ⟨expression, none, none, Number.notANumber, some f.message⟩

/-- The messages of the words that were replaced, if there are any. -/
def remarks (diagnostics : List Diagnostic) : Option String :=
  if diagnostics.isEmpty then none else some ("; ".intercalate (diagnostics.map Diagnostic.message))

/-- The row of a calculation. -/
def ofCalculation (c : Calculation) : Row where
  expression := c.expression
  tokens := some (" ".intercalate c.tokenTexts)
  rpn := some (" ".intercalate c.rpnTexts)
  result := c.result
  error := remarks c.diagnostics

/-- The row of an expression. -/
def ofExpression (options : Options) (expression : String) : Except Fault Row :=
  match Calculation.ofExpression options expression with
  | .ok c => .ok (ofCalculation c)
  | .error (.failure f) => .ok (ofFailure expression f)
  | .error e => .error e

/-- What is reported while an expression of a batch is evaluated. -/
def journal (options : Options) (expression : String) : Journal :=
  Calculation.journal options expression ++
    match Calculation.ofExpression options expression with
    | .error (.failure f) =>
      [⟨.rowFailed, "Failed to evaluate " ++ Text.quoted expression ++ ": " ++ f.message⟩]
    | _ => []

end Row

/-- The rows of expressions, in order. -/
def evaluate (options : Options) : List String → Except Fault (List Row)
  | [] => .ok []
  | e :: es =>
    match Row.ofExpression options e with
    | .error fault => .error fault
    | .ok row => (evaluate options es).map (row :: ·)

/-- What is reported while expressions are evaluated, up to the one that stops the batch. -/
def rowsJournal (options : Options) : List String → Journal
  | [] => []
  | e :: es =>
    Row.journal options e ++
      match Row.ofExpression options e with
      | .error _ => []
      | .ok _ => rowsJournal options es

/-- The number of rows without a value. -/
def failures (rows : List Row) : Nat :=
  rows.countP fun row => row.tokens.isNone

/-- What is reported while a batch is evaluated. -/
def evaluateJournal (options : Options) (expressions : List String) : Journal :=
  rowsJournal options expressions ++
    match evaluate options expressions with
    | .error _ => []
    | .ok rows =>
      [⟨.batchEvaluated, "Evaluated " ++ Number.wholeText rows.length ++ " expressions, " ++
        Number.wholeText (failures rows) ++ " failed"⟩]

end InfixCalculator.Batch
