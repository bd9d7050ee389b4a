import InfixCalculator.Batch.Evaluate
import InfixCalculator.Number.Format

/-!
# Printed tables

* `printed` lays the rows of a batch out in columns. Cells and headers stand at the right of columns as wide as the
  widest of them, with a space between two columns.
* Results have six places, less the zeros that all of them end with; if some are too small or too large for that, all
  are in scientific notation.
-/

namespace InfixCalculator.Batch

/-- A text with the characters that would break the layout escaped. -/
def flatten (s : String) : List Char :=
  s.toList.flatMap fun c =>
    if c = '\t' then ['\\', 't'] else if c = '\n' then ['\\', 'n'] else if c = '\r' then ['\\', 'r'] else [c]

/-- The cells of a column of texts. A missing one shows as no value, in a column without any text as nothing. -/
def textCells (cells : List (Option String)) : List (List Char) :=
  let missing := if cells.any Option.isSome then "NaN" else "None"
  cells.map fun cell => flatten (cell.getD missing)

/-- The number of places of a printed result. -/
def printedPlaces : Nat := 6

/-- The results with six places. -/
def placesFormat : Number.Format :=
  { style := .fixed, precision := printedPlaces }

/-- The results in scientific notation. -/
def scientificFormat : Number.Format :=
  { style := .exponential, precision := printedPlaces }

/-- A result in a format; no number has one text in all formats. -/
def printedResult (format : Number.Format) (x : Float) : List Char :=
  if x.isNaN then "NaN".toList else format.signed x

/-- The number of zeros at the end of a text. -/
def zerosAtEnd (cs : List Char) : Nat :=
  (cs.reverse.takeWhile (· == '0')).length

/-- The least of some numbers, or a bound if there are none. -/
def least (bound : Nat) (ns : List Nat) : Nat :=
  ns.foldl min bound

/-- The text without a number of characters at its end; after a bare point one zero is kept. -/
def cutZeros (count : Nat) (cs : List Char) : List Char :=
  let cut := cs.take (cs.length - count)
  if cut.getLast? = some '.' then cut ++ ['0'] else cut

/-- The results with six places, less the zeros that all finite ones end with. -/
def placesCells (results : List Float) : List (List Char) :=
  let cells := results.map fun x => (x.isFinite, printedResult placesFormat x)
  let count := least printedPlaces ((cells.filter (·.1)).map fun cell => zerosAtEnd cell.2)
  cells.map fun cell => if cell.1 then cutZeros count cell.2 else cell.2

/-- Results above this size are large. -/
def largeResult : Float := 1e6

/-- Results below this size, zero apart, are small. -/
def smallResult : Float := 1e-6

/-- A printed result longer than this is long. -/
def longResult : Nat := printedPlaces + 6

/-- The cells of the column of results. -/
def resultCells (results : List Float) : List (List Char) :=
  let cells := placesCells results
  let small := results.any fun x => x.abs < smallResult && 0 < x.abs
  let large := results.any fun x => largeResult < x.abs
  let long := cells.any fun cell => longResult < cell.length
  if small || (long && large) then results.map (printedResult scientificFormat) else cells

/-- A text at the right of a width. -/
def alignRight (width : Nat) (cs : List Char) : List Char :=
  List.replicate (width - cs.length) ' ' ++ cs

/-- A header with its cells, all as wide as the widest. -/
def layColumn (header : List Char) (cells : List (List Char)) : List (List Char) :=
  let width := ((header :: cells).map List.length).foldl max 0
  (header :: cells).map (alignRight width)

/-- The lines that columns of the same height make. -/
def layLines (columns : List (List (List Char))) (height : Nat) : List (List Char) :=
  (List.range height).map fun i => [' '].intercalate (columns.map fun column => (column[i]?).getD [])

/-- What is printed of no rows. -/
def printedNothing : String :=
  "Empty DataFrame\nColumns: [" ++ ", ".intercalate columns ++ "]\nIndex: []"

/-- The printed table of rows. The header of the results has a space before it. -/
def printed (rows : List Row) : String :=
  if rows.isEmpty then printedNothing
  else
    let laid :=
      [layColumn "expression".toList (textCells (rows.map fun row => some row.expression)),
        layColumn "tokens".toList (textCells (rows.map Row.tokens)),
        layColumn "rpn".toList (textCells (rows.map Row.rpn)),
        layColumn " result".toList (resultCells (rows.map Row.result)),
        layColumn "error".toList (textCells (rows.map Row.error))]
    String.ofList (['\n'].intercalate (layLines laid (rows.length + 1)))

end InfixCalculator.Batch
