import InfixCalculator.Number.Digits
import InfixCalculator.Text.Utf8

/-!
# Comma-separated values from their writing

Bytes are cut into records of fields. A comma ends a field; a line break ends a record; a field that begins with a
quote mark runs to the next single one, with two marks for one, and what follows up to the comma belongs to it too.
Lines that are empty or hold only spaces and tabs are skipped. Each field is a text of its own in UTF-8.

* `lines` is the machine that cuts bytes, and `Table.read?` the table with the first record as its header.
* A record may be shorter than the header, and is then filled up with empty fields. The first record under the header
  may be longer as well, and then the others as long as it: their surplus fields stand at the front, in no column.
* `columnNames` are the names of the columns: one without a name is named by its number, and where several have one
  name, all but the first are numbered.
-/

namespace InfixCalculator.Csv

/-- What can be wrong with the bytes of a table. -/
inductive Fault where
  /-- There is no record. -/
  | noColumns
  /-- A record has more fields than the header and the first record under it. -/
  | tooManyFields (expected line seen : Nat)
  /-- A quoted field is not closed. -/
  | unclosedQuote (line : Nat)
  /-- A field is no text. -/
  | notText (e : Text.Utf8.Fault)
  deriving DecidableEq

/-- The message of a fault. -/
def Fault.message : Fault → String
  | noColumns => "No columns to parse from file"
  | tooManyFields expected line seen =>
    "Error tokenizing data. C error: Expected " ++ Number.wholeText expected ++ " fields in line " ++
      Number.wholeText line ++ ", saw " ++ Number.wholeText seen ++ "\n"
  | unclosedQuote line =>
    "Error tokenizing data. C error: EOF inside string starting at row " ++ Number.wholeText line
  | notText e => e.message

/-! ## Lines -/

/-- What a byte means outside quote marks. -/
inductive Mark where
  | lineFeed
  | carriageReturn
  | comma
  | quote
  /-- A space or a tab. -/
  | blank
  /-- A byte of a field. -/
  | other
  deriving DecidableEq

/-- The meaning of a byte. -/
def markOf (b : UInt8) : Mark :=
  if b = 0x0A then .lineFeed
  else if b = 0x0D then .carriageReturn
  else if b = 0x2C then .comma
  else if b = 0x22 then .quote
  else if b = 0x20 ∨ b = 0x09 then .blank
  else .other

/-- A field of a record. -/
abbrev Field := List UInt8

/-- A line: skipped, or a record. -/
inductive Line where
  | blank
  | record (fields : List Field)

/-- Where the machine stands. -/
inductive Mode where
  /-- At the start of a line. -/
  | lineStart
  /-- After the carriage return that ended a skipped line. -/
  | skippedReturn
  /-- After the carriage return that ended a record. -/
  | recordReturn
  /-- After blanks at the start of a line. -/
  | blanks
  /-- At the start of a field. -/
  | fieldStart
  /-- In a field, outside quote marks. -/
  | plain
  /-- Inside quote marks. -/
  | quoted
  /-- After a mark that may close the quoted part or be the first of two. -/
  | markSeen
  deriving DecidableEq

/-- The machine between two bytes: the bytes of the lines that it skipped since the last line feed or record, and the
field and the record that are not finished, each with the last part first. -/
structure State where
  mode : Mode := .lineStart
  skipped : List UInt8 := []
  field : Field := []
  record : List Field := []

namespace State

/-- The line that the unfinished record makes. -/
def line (st : State) : Line :=
  .record (st.field.reverse :: st.record).reverse

/-- The state with a further byte in its field. -/
def push (st : State) (mode : Mode) (b : UInt8) : State :=
  { st with mode := mode, field := b :: st.field }

/-- The state after the comma that ends a field. -/
def endField (st : State) : State :=
  { mode := .fieldStart, record := st.field.reverse :: st.record }

/-- The state after a comma at the start of a line. -/
def afterComma : State :=
  endField {}

/-- A byte of a field outside quote marks. -/
def plainByte (st : State) (b : UInt8) : State × List Line :=
  match markOf b with
  | .lineFeed => ({}, [st.line])
  | .carriageReturn => ({ mode := .recordReturn }, [st.line])
  | .comma => (st.endField, [])
  | _ => (st.push .plain b, [])

/-- The first byte of a field. -/
def firstByte (st : State) (b : UInt8) : State × List Line :=
  match markOf b with
  | .quote => ({ st with mode := .quoted }, [])
  | _ => st.plainByte b

/-- The state at the start of a line with further bytes skipped, the last of them first. -/
def skip (mode : Mode) (bytes : List UInt8) : State :=
  { mode := mode, skipped := bytes }

/-- The first byte of a line after skipped ones. -/
def lineByte (skipped : List UInt8) (b : UInt8) : State × List Line :=
  match markOf b with
  | .lineFeed => ({}, [.blank])
  | .carriageReturn => (skip .skippedReturn (b :: skipped), [.blank])
  | .blank => (skip .blanks (b :: skipped), [])
  | _ => firstByte { mode := .fieldStart } b

/-- The number of carriage returns among bytes. -/
def returns (bytes : List UInt8) : Nat :=
  bytes.countP fun b => markOf b = .carriageReturn

/-- The state and the lines after bytes that were skipped turn out to be the front of a field. They hold blanks,
carriage returns, and a comma after some of these. -/
def reclaim (st : State) : List UInt8 → State × List Line
  | [] => (st, [])
  | [b] =>
    match markOf b with
    | .carriageReturn => ({ mode := .recordReturn }, [st.line])
    | _ => (st.push .plain b, [])
  | b :: c :: bs =>
    match markOf b, markOf c with
    | .carriageReturn, .comma =>
      let (st', lines) := reclaim afterComma bs
      (st', st.line :: lines)
    | .carriageReturn, _ =>
      let (st', lines) := reclaim {} (c :: bs)
      (st', st.line :: (List.replicate (returns (c :: bs)) .blank ++ lines))
    | _, _ => reclaim (st.push .plain b) (c :: bs)

/-- A byte after blanks at the start of a line. Blanks before anything else were not to be skipped, and neither were
the lines before them. -/
def blanksByte (skipped : List UInt8) (b : UInt8) : State × List Line :=
  match markOf b with
  | .lineFeed | .carriageReturn | .blank => lineByte skipped b
  | _ =>
    let (st, lines) := reclaim {} skipped.reverse
    let (st, more) := st.plainByte b
    (st, lines ++ more)

/-- One byte: the next state, and the lines that it ends. -/
def step (st : State) (b : UInt8) : State × List Line :=
  match st.mode with
  | .lineStart => lineByte st.skipped b
  | .skippedReturn =>
    match markOf b with
    | .lineFeed => ({}, [])
    | .comma => (skip .lineStart (b :: st.skipped), [])
    | _ => lineByte st.skipped b
  | .recordReturn =>
    match markOf b with
    | .lineFeed => ({}, [])
    | .comma => (afterComma, [])
    | _ => lineByte [] b
  | .blanks => blanksByte st.skipped b
  | .fieldStart => st.firstByte b
  | .plain => st.plainByte b
  | .quoted => if markOf b = .quote then ({ st with mode := .markSeen }, []) else (st.push .quoted b, [])
  | .markSeen => if markOf b = .quote then (st.push .quoted b, []) else st.plainByte b

/-- The lines that the end of the bytes ends; none inside quote marks. -/
def finish? (st : State) : Option (List Line) :=
  match st.mode with
  | .lineStart | .skippedReturn | .recordReturn | .blanks => some []
  | .fieldStart | .plain | .markSeen => some [st.line]
  | .quoted => none

end State

/-- The lines of bytes from a state on, of which some have been read, and what is wrong at their end. -/
def linesFrom (st : State) (line : Nat) : List UInt8 → List Line × Option Fault
  | [] =>
    match st.finish? with
    | some ended => (ended, none)
    | none => ([], some (.unclosedQuote line))
  | b :: bs =>
    let (st, ended) := st.step b
    let (rest, fault) := linesFrom st (line + ended.length) bs
    (ended ++ rest, fault)

/-- The lines of bytes, and what is wrong at their end. -/
def lines (bytes : List UInt8) : List Line × Option Fault :=
  linesFrom {} 0 bytes

/-! ## Tables -/

/-- A header, and under each of its names the texts of a column. -/
structure Table where
  header : List (List Char)
  columns : List (List (List Char))

/-- The text of a field. -/
def textOf (field : Field) : Except Fault (List Char) :=
  (Text.Utf8.decode .whole field).mapError .notText

/-- The texts of fields. -/
def textsOf : List Field → Except Fault (List (List Char))
  | [] => .ok []
  | field :: fields => do
    let text ← textOf field
    let texts ← textsOf fields
    return text :: texts

/-- The texts of some columns. -/
def columnsOf : List (List Field) → Except Fault (List (List (List Char)))
  | [] => .ok []
  | column :: columns => do
    let texts ← textsOf column
    let rest ← columnsOf columns
    return texts :: rest

/-- The fields of each column of records, empty where a record has none. -/
def transpose (width : Nat) (records : List (List Field)) : List (List Field) :=
  (List.range width).map fun i => records.map fun record => (record[i]?).getD []

/-- The number of fields of the first record among lines. -/
def firstWidth : List Line → Nat
  | [] => 0
  | .blank :: rest => firstWidth rest
  | .record fields :: _ => fields.length

/-- The records of lines, none longer than the width. -/
def records (width line : Nat) : List Line → Except Fault (List (List Field))
  | [] => .ok []
  | .blank :: rest => records width (line + 1) rest
  | .record fields :: rest =>
    if width < fields.length then .error (.tooManyFields width line fields.length)
    else (records width (line + 1) rest).map (fields :: ·)

/-- The name of a column: one that has none is named by its number. -/
def columnName (index : Nat) (name : List Char) : List Char :=
  if name = [] then "Unnamed: ".toList ++ Number.digitsOf index else name

/-- A name with a number behind it. -/
def numberedName (name : List Char) (n : Nat) : List Char :=
  name ++ '.' :: Number.digitsOf n

/-- The name with the first number behind it that makes it a name not among some others. -/
def freshName (names : List (List Char)) (name : List Char) : List Char :=
  let number := (List.range' 1 names.length).find? fun n => !names.contains (numberedName name n)
  numberedName name (number.getD (names.length + 1))

/-- The names with those at some indices, one after the other, replaced by fresh ones where they have been taken. -/
def renameFrom (taken names : List (List Char)) : List Nat → List (List Char)
  | [] => names
  | i :: rest =>
    let name := (names[i]?).getD []
    let name := if taken.contains name then freshName names name else name
    renameFrom (name :: taken) (names.set i name) rest

/-- The names of the columns under a header. Of several columns with one name the first keeps it, those with a name in
the header coming before those without. -/
def columnNames (header : List (List Char)) : List (List Char) :=
  let indices := List.range header.length
  let isNamed := fun i => header[i]? != some []
  renameFrom [] (header.mapIdx columnName) (indices.filter isNamed ++ indices.filter fun i => !isNamed i)

/-- The header with the names of its columns, or a fault, and then the columns of lines of which the first record is
the header; `fault` is what is wrong after the last line. -/
def tableFrom (line : Nat) (fault : Option Fault) : List Line → Except Fault Table
  | [] => .error .noColumns
  | .blank :: rest => tableFrom (line + 1) fault rest
  | .record fields :: rest => do
    let header ← textsOf fields
    let width := max fields.length (firstWidth rest)
    let records ← records width (line + 1) rest
    match fault with
    | some e => throw e
    | none =>
      let columns ← columnsOf (transpose width records)
      return ⟨columnNames header, columns.drop (width - fields.length)⟩

/-- The bytes without a byte order mark at their front. -/
def dropMark : List UInt8 → List UInt8
  | 0xEF :: 0xBB :: 0xBF :: bytes => bytes
  | bytes => bytes

/-- The number of records among lines. -/
def recordCount (lines : List Line) : Nat :=
  lines.countP fun
    | .record _ => true
    | .blank => false

/-- The table that bytes hold. A quote that is not closed in the first two records is reported before everything else,
in a later one after the header and after a record that is too long. -/
def Table.read? (bytes : List UInt8) : Except Fault Table :=
  let (lines, fault) := lines (dropMark bytes)
  match fault with
  | none => tableFrom 1 none lines
  | some e => if recordCount lines < 2 then .error e else tableFrom 1 (some e) lines

/-- The cells of the column with a name, if there is one. -/
def Table.column? (table : Table) (name : List Char) : Option (List (List Char)) :=
  if table.header.contains name then table.columns[table.header.idxOf name]? else none

end InfixCalculator.Csv
