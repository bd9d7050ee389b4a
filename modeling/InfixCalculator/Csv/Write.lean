/-!
# Comma-separated values in writing

* `writeRecord` writes the fields of a record with commas between them and a line feed at the end. A field that holds
  a comma, a quote mark or a line feed is put between quote marks, with each mark in it doubled.
-/

namespace InfixCalculator.Csv

/-- The character cannot stand in a field outside quote marks. -/
def needsQuotes (c : Char) : Bool :=
  c = ',' || c = '\x22' || c = '\n'

/-- The field with its quote marks doubled. -/
def doubleMarks (field : List Char) : List Char :=
  field.flatMap fun c => if c = '\x22' then ['\x22', '\x22'] else [c]

/-- A field in writing. -/
def writeField (field : List Char) : List Char :=
  if field.any needsQuotes then '\x22' :: (doubleMarks field ++ ['\x22']) else field

/-- A record in writing. -/
def writeRecord (fields : List (List Char)) : List Char :=
  [','].intercalate (fields.map writeField) ++ ['\n']

/-- Records in writing. -/
def write (records : List (List (List Char))) : List Char :=
  records.flatMap writeRecord

end InfixCalculator.Csv
