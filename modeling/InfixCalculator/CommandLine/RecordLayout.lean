import InfixCalculator.Format.Percent
import InfixCalculator.Journal
import InfixCalculator.Json.Basic
import InfixCalculator.Text.DecimalDigit
import InfixCalculator.Text.WordCharacter

/-!
# The layout of records

* A layout is a percent format for the named properties of a record, such as `%(message)s`. `RecordLayout.ofJson` takes
  the layout of the settings, which has to have a field in it.
* `RecordLayout.write?` writes a record in a layout, with a text for the time at which it was made. A record that a
  layout cannot show is left out.
-/

namespace InfixCalculator.CommandLine

/-- The layout of records. -/
structure RecordLayout where
  format : List Char
  deriving DecidableEq

namespace RecordLayout

/-! ## Reading -/

/-- What can be wrong with a layout. -/
inductive Fault where
  | noField (given : String)
  | notText (kind : String)
  deriving DecidableEq

/-- The message of a fault. -/
def Fault.message : Fault → String
  | noField given => "Invalid format '" ++ given ++ "' for '%' style"
  | notText kind => "expected string or bytes-like object, got '" ++ kind ++ "'"

/-- The letters at the end of a field. -/
def letters : List Char :=
  "diouxefgcrsa%".toList

/-- The text without a width or a precision at its front: a star or digits. -/
def dropCount? : List Char → Option (List Char)
  | '*' :: cs => some cs
  | c :: cs => if Text.isDecimalDigit c then some (cs.dropWhile Text.isDecimalDigit) else none
  | [] => none

/-- The text without a precision at its front. -/
def dropPrecision (cs : List Char) : List Char :=
  match cs with
  | '.' :: rest => (dropCount? rest).getD cs
  | _ => cs

/-- The text begins with what may follow the name of a field: flags, a width and a precision, and then a letter. -/
def endsField (cs : List Char) : Bool :=
  let cs := cs.dropWhile PercentFormat.isFlag
  match dropPrecision ((dropCount? cs).getD cs) with
  | c :: _ => letters.contains c.toLower
  | [] => false

/-- The text after a percent sign begins with a field. -/
def beginsField : List Char → Bool
  | '(' :: cs =>
    match cs.dropWhile Text.isWordCharacter with
    | ')' :: rest => (cs.head?.map Text.isWordCharacter).getD false && endsField rest
    | _ => false
  | _ => false

/-- There is a field in the text. -/
def hasField : List Char → Bool
  | [] => false
  | c :: cs => (c = '%' && beginsField cs) || hasField cs

/-- The layout that shows the message only. -/
def messageOnly : RecordLayout :=
  ⟨"%(message)s".toList⟩

/-- The layout that a value stands for; any value that counts as false stands for the message only. -/
def ofJson (j : Json) : Except Fault RecordLayout :=
  if !j.truthy then .ok messageOnly
  else
    match j with
    | .text s => if hasField s.toList then .ok ⟨s.toList⟩ else .error (.noField s)
    | j => .error (.notText j.kindName)

/-! ## Writing -/

/-- The properties of a record that do not depend on the machine on which it is made. -/
def properties (time : String) (r : Record) : List (String × PercentFormat.Value) :=
  let reporter := r.reporter
  let nothing := PercentFormat.Value.other "NoneType" "None"
  [("name", .text reporter.name), ("msg", .text r.message), ("message", .text r.message),
    ("args", .other "tuple" "()"), ("levelname", .text r.level.name), ("levelno", .whole r.level.severity),
    ("module", .text reporter.lastName), ("filename", .text (reporter.lastName ++ ".py")),
    ("funcName", .text r.event.activity), ("lineno", .whole r.event.number), ("exc_info", nothing),
    ("exc_text", nothing), ("stack_info", nothing), ("threadName", .text "MainThread"),
    ("processName", .text "MainProcess"), ("asctime", .text time)]

/-- The property of a record with a name. -/
def property (time : String) (r : Record) (name : List Char) : Except PercentFormat.Fault PercentFormat.Value :=
  match (properties time r).lookup (String.ofList name) with
  | some v => .ok v
  | none => .error (.unknownName (String.ofList name))

/-- A record in the layout, if all can be shown that the layout asks for. -/
def write? (layout : RecordLayout) (time : String) (r : Record) : Option (List Char) :=
  (PercentFormat.write ⟨none, property time r⟩ layout.format).toOption

/-- Records in the layout, each on a line. -/
def writeAll (layout : RecordLayout) (time : String) (journal : Journal) : String :=
  String.ofList ((journal.filterMap (layout.write? time)).flatMap fun cs => cs ++ ['\n'])

end RecordLayout

end InfixCalculator.CommandLine
