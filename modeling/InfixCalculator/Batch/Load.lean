import InfixCalculator.Csv.Read
import InfixCalculator.Folder
import InfixCalculator.Settings
import InfixCalculator.Text.Lines

/-!
# Expressions of a file

* `load` gives the expressions of a file, and `loadJournal` what is reported meanwhile. A path that ends in `.csv` is a
  table, and the expressions are the cells of one column; in any other file each line with more than blanks on it is
  an expression.
-/

namespace InfixCalculator.Batch

/-- What can go wrong when expressions are loaded. -/
inductive LoadFault where
  | file (e : PathFault)
  | notText (e : Text.Utf8.Fault)
  | table (e : Csv.Fault)
  | missingColumn (column path : String)
  /-- No column can have a value of this kind as its name. -/
  | columnKind (kind : String)
  deriving DecidableEq

/-- The message of a fault. -/
def LoadFault.message : LoadFault → String
  | file e => e.message
  | notText e => e.message
  | table e => e.message
  | missingColumn column path => "Expression column '" ++ column ++ "' not found in " ++ path ++ "."
  | columnKind kind => "unhashable type: '" ++ kind ++ "'"

/-- Where a part of a file of lines starts: after each 8192 bytes. -/
def partStarts (offset : Nat) : Bool :=
  offset % 8192 = 0

/-- The path names a table. -/
def isTable (path : String) : Bool :=
  path.endsWith ".csv"

/-- The column that holds the expressions: the one asked for, or else the one of the settings. -/
def columnName (settings : Settings) (column : Json) : Json :=
  if column.truthy then column else settings.expressionColumn

/-- The cells of the column that a value names. -/
def cells (column : Json) (path : String) (table : Csv.Table) : Except LoadFault (List String) :=
  match column with
  | .text name =>
    match table.column? name.toList with
    | none => .error (.missingColumn name path)
    | some cells => .ok (cells.map String.ofList)
  | .array _ | .object _ => .error (.columnKind column.kindName)
  | _ => .error (.missingColumn column.shown path)

/-- The expressions in the column of a table. -/
def ofTable (column : Json) (path : String) (bytes : List UInt8) : Except LoadFault (List String) :=
  match Csv.Table.read? bytes with
  | .error e => .error (.table e)
  | .ok table => cells column path table

/-- The expressions on the lines of a text. -/
def ofLines (text : List Char) : List String :=
  (Text.filledLines text).map String.ofList

/-- The expressions on the lines of a file of text. -/
def ofText (bytes : List UInt8) : Except LoadFault (List String) :=
  match Text.Utf8.decode (.inParts partStarts) bytes with
  | .error e => .error (.notText e)
  | .ok text => .ok (ofLines text)

/-- The expressions of a file. -/
def load (settings : Settings) (files : Files) (path : String) (column : Json) : Except LoadFault (List String) :=
  match files.read path with
  | .error e => .error (.file e)
  | .ok bytes => if isTable path then ofTable (columnName settings column) path bytes else ofText bytes

/-- What is reported while expressions are loaded. -/
def loadJournal (path : String) (loaded : Except LoadFault (List String)) : Journal :=
  ⟨.loading, "Loading expressions from " ++ path⟩ ::
    match loaded with
    | .error _ => []
    | .ok expressions => [⟨.loaded, "Loaded " ++ Number.wholeText expressions.length ++ " expressions"⟩]

end InfixCalculator.Batch
