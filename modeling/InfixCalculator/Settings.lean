import InfixCalculator.Journal
import InfixCalculator.Json.Basic
import InfixCalculator.Template

/-!
# Settings

The settings are four sections of named JSON values. Any value can be put into a section; whether the settings make
sense is checked by `Settings.validate`, and each part that uses a setting reads it at the time of use.
-/

namespace InfixCalculator

/-- The sections of the settings. -/
inductive Section where
  | parser
  | evaluator
  | batch
  | logging
  deriving DecidableEq

namespace Section

/-- All sections, in order. -/
def all : List Section :=
  [parser, evaluator, batch, logging]

/-- The name of the section. -/
def name : Section → String
  | parser => "parser"
  | evaluator => "evaluator"
  | batch => "batch"
  | logging => "logging"

/-- The section with the name. -/
def ofName? (s : String) : Option Section :=
  all.find? fun part => part.name == s

end Section

/-- The named values of a section, in order. -/
abbrev Entries := List (String × Json)

namespace Entries

/-- The value of a name, or null. -/
def value (entries : Entries) (key : String) : Json :=
  (entries.lookup key).getD .null

/-- The entries with a value in place of the old one, or at the end if the name is new. -/
def put (key : String) (value : Json) : Entries → Entries
  | [] => [(key, value)]
  | (k, v) :: rest => if k = key then (k, value) :: rest else (k, v) :: put key value rest

end Entries

/-- The settings of the calculator. -/
structure Settings where
  /-- How words are treated that are no operands, and what is said about them. -/
  parser : Entries
  /-- Whether values may be left over. -/
  evaluator : Entries
  /-- Where the expressions of a file are, and how its results are written. -/
  batch : Entries
  /-- Which records are shown, and how. -/
  logging : Entries

namespace Settings

/-- The settings that hold unless others are made. -/
def standard : Settings where
  parser :=
    [("on_parse_error", .text "recover"),
      ("error_template", .text ("Error with parsing your expression '\x7bexpression\x7d'. " ++
        "Please enter valid numbers, operators, or variables and try again."))]
  evaluator := [("allow_partial", .bool true)]
  batch := [("expression_column", .text "expression"), ("float_format", .text "%.10g")]
  logging := [("level", .text "INFO"), ("format", .text "%(asctime)s - %(name)s - %(levelname)s - %(message)s")]

/-- The entries of a section. -/
def entries (settings : Settings) : Section → Entries
  | .parser => settings.parser
  | .evaluator => settings.evaluator
  | .batch => settings.batch
  | .logging => settings.logging

/-- The settings with a value put into a section. -/
def put (settings : Settings) (part : Section) (key : String) (value : Json) : Settings :=
  match part with
  | .parser => { settings with parser := settings.parser.put key value }
  | .evaluator => { settings with evaluator := settings.evaluator.put key value }
  | .batch => { settings with batch := settings.batch.put key value }
  | .logging => { settings with logging := settings.logging.put key value }

/-- What is done with a word that is no operand. -/
def onParseError (settings : Settings) : Json := settings.parser.value "on_parse_error"

/-- What is shown instead of an expression with such a word. -/
def errorTemplate (settings : Settings) : Json := settings.parser.value "error_template"

/-- Whether values may be left over at the end of an evaluation. -/
def allowPartial (settings : Settings) : Json := settings.evaluator.value "allow_partial"

/-- The column of a table that holds the expressions. -/
def expressionColumn (settings : Settings) : Json := settings.batch.value "expression_column"

/-- The format of the results in a table. -/
def floatFormat (settings : Settings) : Json := settings.batch.value "float_format"

/-- The least level of the records that are shown. -/
def level (settings : Settings) : Json := settings.logging.value "level"

/-- The layout of the records that are shown. -/
def recordFormat (settings : Settings) : Json := settings.logging.value "format"

/-! ## Validation -/

/-- The settings that can fail to make sense. -/
inductive Fault where
  | onParseError
  | errorTemplate
  /-- Nothing can be in a template of this kind. -/
  | templateKind (kind : String)
  | allowPartial
  | expressionColumn
  | level
  deriving DecidableEq

/-- What is said about a setting that makes no sense. -/
def Fault.message : Fault → String
  | onParseError => "on_parse_error 只能是 recover 或 raise"
  | errorTemplate => "error_template 需要包含 \x7bexpression\x7d"
  | templateKind kind => "argument of type '" ++ kind ++ "' is not iterable"
  | allowPartial => "allow_partial 必须是布尔值"
  | expressionColumn => "expression_column 不能为空"
  | level => "未知的日志级别"

/-- The value is one of the texts. -/
def isOneOf (texts : List String) (j : Json) : Bool :=
  match j with
  | .text s => texts.contains s
  | _ => false

/-- The value is a truth value. -/
def isBool : Json → Bool
  | .bool _ => true
  | _ => false

/-- The value is the field for the expression. -/
def isRequiredField : Json → Bool
  | .text s => s.toList == Template.requiredField
  | _ => false

/-- The field for the expression is in a value: a part of a text, an item of an array, or a name in an object. -/
def holdsRequiredField : Json → Except Fault Bool
  | .text s => .ok (Template.mentionsExpression s)
  | .array items => .ok (items.any isRequiredField)
  | .object members => .ok (members.any fun m => isRequiredField (.text m.1))
  | j => .error (.templateKind j.kindName)

/-- The template has the field for the expression in it. -/
def validateTemplate (settings : Settings) : Except Fault Unit := do
  if !(← holdsRequiredField settings.errorTemplate) then throw .errorTemplate

/-- The settings make sense, or the first that does not. -/
def validate (settings : Settings) : Except Fault Unit := do
  if !isOneOf ["recover", "raise"] settings.onParseError then throw .onParseError
  settings.validateTemplate
  if !isBool settings.allowPartial then throw .allowPartial
  if !settings.expressionColumn.truthy then throw .expressionColumn
  if !isOneOf (Level.all.map Level.name) settings.level then throw .level

end Settings

end InfixCalculator
