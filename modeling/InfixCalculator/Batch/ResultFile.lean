import InfixCalculator.Batch.Evaluate
import InfixCalculator.Batch.ResultFormat
import InfixCalculator.Csv.Write
import InfixCalculator.Text.Utf8

/-!
# Result files

* `resultFile` writes the rows of a batch as comma-separated values under their column names. A cell that is missing
  and a result that is no number are empty; other results are written in a format. If a result cannot be written, the
  column names are all that there is in the file.
-/

namespace InfixCalculator.Batch

/-- A result in a format. -/
def resultCell (format : ResultFormat) (x : Float) : Except ResultFormat.Fault (List Char) :=
  if x.isNaN then .ok [] else format.write x

/-- The cells of a row. -/
def Row.cells (format : ResultFormat) (row : Row) : Except ResultFormat.Fault (List (List Char)) :=
  let cell := fun (s : Option String) => (s.getD "").toList
  (resultCell format row.result).map fun result =>
    [row.expression.toList, cell row.tokens, cell row.rpn, result, cell row.error]

/-- The cells of rows. -/
def rowCells (format : ResultFormat) : List Row → Except ResultFormat.Fault (List (List (List Char)))
  | [] => .ok []
  | row :: rows => do
    let cells ← row.cells format
    let rest ← rowCells format rows
    return cells :: rest

/-- The text of a result file with some records under the column names. -/
def resultText (records : List (List (List Char))) : List Char :=
  Csv.write (columns.map String.toList :: records)

/-- The bytes of a result file, and what is wrong with a result. -/
def resultFile (format : ResultFormat) (rows : List Row) : List UInt8 × Option ResultFormat.Fault :=
  match rowCells format rows with
  | .ok records => (Text.Utf8.encode (resultText records), none)
  | .error e => (Text.Utf8.encode (resultText []), some e)

end InfixCalculator.Batch
