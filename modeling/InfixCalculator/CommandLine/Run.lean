import InfixCalculator.Batch.Load
import InfixCalculator.Batch.Print
import InfixCalculator.Batch.ResultFile
import InfixCalculator.CommandLine.Arguments
import InfixCalculator.CommandLine.RecordLayout

/-!
# Runs of the command line

* `runArguments` does what the arguments ask for: it shows the calculation of an expression, or evaluates the
  expressions of a file and prints the results or makes a file of them. The answer says what is printed, what is
  reported, which file is to be saved, and the exit code.
* `run` reads the arguments first; words that make no sense end it with code two and nothing else.
-/

namespace InfixCalculator.CommandLine

/-- What ends a run without an exit code. -/
inductive Escape where
  | settings (e : Settings.Fault)
  | layout (e : RecordLayout.Fault)
  /-- There is no level of this name. -/
  | unknownLevel (given : String)
  /-- A value of this kind names no level. -/
  | levelKind (kind : String)
  | template (e : Template.Fault)
  | load (e : Batch.LoadFault)
  | resultFormat (e : Batch.ResultFormat.Fault)
  | unknownOperator (u : Operator.Unknown)
  deriving DecidableEq

/-- The message of what ends a run without an exit code. -/
def Escape.message : Escape → String
  | settings e => e.message
  | layout e => e.message
  | unknownLevel given => "module 'logging' has no attribute '" ++ given ++ "'"
  | levelKind kind => "attribute name must be string, not '" ++ kind ++ "'"
  | template e => e.message
  | load e => e.message
  | resultFormat e => e.message
  | unknownOperator u => Text.quoted u.symbol

/-- What a run comes to. -/
structure Outcome where
  /-- The exit code, unless the run does not end in order. -/
  ending : Except Escape Nat
  /-- What is printed, without the line feed at its end. -/
  printed : Option String := none
  /-- What is reported. -/
  journal : Journal := []
  /-- The file to be saved. -/
  saved : Option (String × List UInt8) := none

namespace Outcome

/-- A run that ends out of order. -/
def escaped (journal : Journal) (e : Escape) : Outcome :=
  { ending := .error e, journal := journal }

/-- A run that fails with a message. -/
def failed (journal : Journal) (message : String) : Outcome :=
  { ending := .ok 1, journal := journal ++ [⟨.runFailed, message⟩] }

/-- A run that cannot read its expressions or save its results. -/
def unreadable (journal : Journal) (reason : String) : Outcome :=
  { ending := .ok 1, journal := journal ++ [⟨.unreadable, "Cannot read expressions: " ++ reason⟩] }

/-- The outcome of a fault in a calculation; a symbol that belongs to no operator escapes. -/
def ofFault (journal : Journal) : Fault → Outcome
  | .failure f => failed journal f.message
  | .unknownPolicy given => unreadable journal (Policy.unknownMessage given)
  | .unknownOperator u => escaped journal (.unknownOperator u)

/-- The outcome when expressions cannot be loaded; a column that can have no name escapes. -/
def ofLoadFault (journal : Journal) : Batch.LoadFault → Outcome
  | .columnKind kind => escaped journal (.load (.columnKind kind))
  | e => unreadable journal e.message

/-- The outcome of a fault in the format of the results. Only a fault in the text of the format ends the run in
order. -/
def ofFormatFault (journal : Journal) (e : Batch.ResultFormat.Fault) : Outcome :=
  if e.concern = .form then unreadable journal e.message else escaped journal (.resultFormat e)

/-- The text that is printed. -/
def stdout (o : Outcome) : String :=
  match o.printed with
  | some text => text ++ "\n"
  | none => ""

end Outcome

/-- The options of a run. -/
def optionsOf (settings : Settings) (args : Arguments) : Options where
  policy := if args.strict then .ok .raise else Policy.ofJson settings.onParseError
  allowPartial := if args.noPartial then false else settings.allowPartial.truthy

/-- The outcome of rows that are saved at a path: the format of the results is read before the path is tried, and used
after that. A result that cannot be written leaves a file without results. -/
def saveRows (settings : Settings) (files : Files) (journal : Journal) (path : String) (rows : List Batch.Row) :
    Outcome :=
  match Batch.ResultFormat.ofJson settings.floatFormat with
  | .error e => Outcome.ofFormatFault journal e
  | .ok format =>
    match files.refusal path with
    | some e => Outcome.unreadable journal e.message
    | none =>
      let (bytes, fault) := Batch.resultFile format rows
      let outcome : Outcome :=
        match fault with
        | some e => Outcome.ofFormatFault journal e
        | none => { ending := .ok 0, journal := journal ++ [⟨.saved, "Results saved to " ++ path⟩] }
      { outcome with saved := some (path, bytes) }

/-- The outcome of rows: they are printed, or saved at the path that the arguments name. -/
def runRows (settings : Settings) (files : Files) (args : Arguments) (journal : Journal) (rows : List Batch.Row) :
    Outcome :=
  match args.outputPath? with
  | none => { ending := .ok 0, printed := some (Batch.printed rows), journal := journal }
  | some path => saveRows settings files journal path rows

/-- The column that the arguments name, or null. -/
def columnOf (args : Arguments) : Json :=
  Json.ofText? args.column

/-- The run over the expressions of a file. -/
def runFile (settings : Settings) (files : Files) (args : Arguments) (path : String) : Outcome :=
  let loaded := Batch.load settings files path (columnOf args)
  let journal := Batch.loadJournal path loaded
  match loaded with
  | .error e => Outcome.ofLoadFault journal e
  | .ok expressions =>
    let options := optionsOf settings args
    let journal := journal ++ Batch.evaluateJournal options expressions
    match Batch.evaluate options expressions with
    | .error e => Outcome.ofFault journal e
    | .ok rows => runRows settings files args journal rows

/-- What is printed of a calculation, and what is reported then. -/
def showCalculation (settings : Settings) (args : Arguments) (c : Calculation) :
    Except Template.Fault (String × Journal) :=
  if args.json then (c.dump settings).map fun dump => (dump, [])
  else (c.line settings).map fun line => (line, if args.verbose then Calculation.detailJournal line c else [])

/-- The run over one expression. -/
def runExpression (settings : Settings) (args : Arguments) (expression : String) : Outcome :=
  let options := optionsOf settings args
  let journal := Calculation.journal options expression
  match Calculation.ofExpression options expression with
  | .error e => Outcome.ofFault journal e
  | .ok c =>
    match showCalculation settings args c with
    | .error e => Outcome.escaped journal (.template e)
    | .ok (text, more) => { ending := .ok 0, printed := some text, journal := journal ++ more }

/-- The run that the arguments ask for. The settings are checked before anything else. -/
def runArguments (settings : Settings) (files : Files) (args : Arguments) : Outcome :=
  match settings.validate with
  | .error e => Outcome.escaped [] (.settings e)
  | .ok () =>
    match args.file? with
    | some path => runFile settings files args path
    | none => runExpression settings args (args.expression.getD "")

/-! ## Reports -/

/-- The names that stand for a severity besides those of the levels. -/
def severityNames : List (String × Nat) :=
  [("FATAL", 50), ("WARN", 30), ("NOTSET", 0)]

/-- The severity that a name stands for. -/
def severityOf? (name : String) : Option Nat :=
  ((Level.ofName? name).map Level.severity) <|> severityNames.lookup name

/-- The severity that a value stands for. -/
def severityOfJson : Json → Except Escape Nat
  | .text name =>
    match severityOf? name with
    | some severity => .ok severity
    | none => .error (.unknownLevel name)
  | j => .error (.levelKind j.kindName)

/-- The least severity of the records that are shown: that of the arguments, or else that of the settings. -/
def shownSeverity (settings : Settings) (args : Arguments) : Except Escape Nat :=
  match args.level with
  | some (.level level) => .ok level.severity
  | some .nothing => severityOfJson (.array [])
  | none => severityOfJson settings.level

/-- What a run leaves behind: its exit code or what ended it, what it prints, the records that it shows, and how they
are written, and the file it saves. -/
structure Report where
  ending : Except Escape Nat
  stdout : String := ""
  stderr : String := ""
  journal : Journal := []
  saved : Option (String × List UInt8) := none

/-- How records are shown: the least severity and the layout. -/
def presentation (settings : Settings) (args : Arguments) : Except Escape (Nat × RecordLayout) := do
  let severity ← shownSeverity settings args
  let layout ← (RecordLayout.ofJson settings.recordFormat).mapError .layout
  return (severity, layout)

/-- The run with arguments; `time` stands for the time in its records. How records are shown is settled first. -/
def report (settings : Settings) (files : Files) (time : String) (args : Arguments) : Report :=
  match presentation settings args with
  | .error e => { ending := .error e }
  | .ok (severity, layout) =>
    let outcome := runArguments settings files args
    let shown := outcome.journal.filter fun r => severity ≤ r.level.severity
    ⟨outcome.ending, outcome.stdout, layout.writeAll time shown, shown, outcome.saved⟩

/-- The exit code of a command line that is refused. -/
def refusalCode : Arguments.Refusal → Nat
  | .usage => 2
  | .help => 0

/-- The run of a command line, unless its words are refused. -/
def run (settings : Settings) (files : Files) (time : String) (words : List String) : Except Arguments.Refusal Report :=
  (Arguments.parse words).map (report settings files time)

end InfixCalculator.CommandLine
