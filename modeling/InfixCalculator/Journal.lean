/-!
# The journal

What an operation reports while it runs is a list of records, in order. A record says on which event it was made, and
has a message; the event tells its level and the part of the program that it comes from.

* `atOrAbove` keeps the records of a level and the levels above it.
-/

namespace InfixCalculator

/-- The levels of records, from the most to the least detailed. -/
inductive Level where
  | debug
  | info
  | warning
  | error
  | critical
  deriving DecidableEq

namespace Level

/-- All levels, the least severe first. -/
def all : List Level :=
  [debug, info, warning, error, critical]

/-- The name of the level. -/
def name : Level → String
  | debug => "DEBUG"
  | info => "INFO"
  | warning => "WARNING"
  | error => "ERROR"
  | critical => "CRITICAL"

/-- The level with the name. -/
def ofName? (s : String) : Option Level :=
  all.find? fun level => level.name == s

/-- The severity: larger is more severe. -/
def severity : Level → Nat
  | debug => 10
  | info => 20
  | warning => 30
  | error => 40
  | critical => 50

end Level

/-- The parts of the program that report. -/
inductive Reporter where
  | tokens
  | conversion
  | evaluation
  | calculation
  | batch
  | commandLine
  deriving DecidableEq

namespace Reporter

/-- The name under which a part reports. -/
def name : Reporter → String
  | tokens => "core.tokenizer"
  | conversion => "core.postfix"
  | evaluation => "core.rpn_evaluator"
  | calculation => "calculator.calculator"
  | batch => "calculator.batch"
  | commandLine => "main"

/-- The last part of the name. -/
def lastName : Reporter → String
  | tokens => "tokenizer"
  | conversion => "postfix"
  | evaluation => "rpn_evaluator"
  | calculation => "calculator"
  | batch => "batch"
  | commandLine => "main"

end Reporter

/-- The events on which something is reported. -/
inductive Event where
  /-- An expression is cut into tokens. -/
  | tokenized
  /-- A word is replaced by zero. -/
  | substituted
  /-- Tokens are in reverse Polish order. -/
  | converted
  /-- An operator lacks operands. -/
  | underflow
  /-- There is no value at the end. -/
  | noValue
  /-- There are several values at the end, but one is allowed. -/
  | leftover
  /-- The sequence that left several values is shown. -/
  | leftoverSequence
  /-- There are several values at the end, and the last is taken. -/
  | partialValue
  /-- A result is shown in detail. -/
  | resultShown
  /-- The tokens of a calculation are shown in detail. -/
  | tokensShown
  /-- A file of expressions is to be loaded. -/
  | loading
  /-- A file of expressions is loaded. -/
  | loaded
  /-- An expression of a batch has no value. -/
  | rowFailed
  /-- A batch is evaluated. -/
  | batchEvaluated
  /-- The results of a batch are saved. -/
  | saved
  /-- A run ends because an expression has no value. -/
  | runFailed
  /-- A run ends because its expressions cannot be read or its results cannot be saved. -/
  | unreadable
  deriving DecidableEq

namespace Event

/-- The level of the records of an event. -/
def level : Event → Level
  | tokenized | converted => .debug
  | resultShown | tokensShown | loading | loaded | batchEvaluated | saved => .info
  | substituted | partialValue | rowFailed => .warning
  | underflow | noValue | leftover | leftoverSequence | runFailed | unreadable => .error

/-- The part of the program on whose behalf an event is reported. -/
def reporter : Event → Reporter
  | tokenized => .tokens
  | substituted | converted => .conversion
  | underflow | noValue | leftover | leftoverSequence | partialValue => .evaluation
  | resultShown | tokensShown => .calculation
  | loading | loaded | rowFailed | batchEvaluated => .batch
  | saved | runFailed | unreadable => .commandLine

/-- The name that a record gives to the activity in which an event happens. -/
def activity : Event → String
  | tokenized => "tokenize"
  | substituted | converted => "to_postfix"
  | underflow | noValue | leftover | leftoverSequence | partialValue => "evaluate"
  | resultShown | tokensShown => "to_string"
  | loading | loaded => "load_expressions"
  | rowFailed | batchEvaluated => "evaluate_many"
  | saved | runFailed | unreadable => "main"

/-- The number that a record gives to an event among those of its reporter. -/
def number : Event → Nat
  | tokenized => 52
  | substituted => 71
  | converted => 81
  | underflow => 38
  | noValue => 46
  | leftover => 51
  | leftoverSequence => 52
  | partialValue => 54
  | resultShown => 59
  | tokensShown => 60
  | loading => 28
  | loaded => 39
  | rowFailed => 56
  | batchEvaluated => 75
  | saved => 81
  | runFailed => 88
  | unreadable => 91

end Event

/-- One report. -/
structure Record where
  event : Event
  message : String
  deriving DecidableEq

/-- The level of a record. -/
def Record.level (r : Record) : Level :=
  r.event.level

/-- The part of the program that a record comes from. -/
def Record.reporter (r : Record) : Reporter :=
  r.event.reporter

/-- Reports in the order in which they were made. -/
abbrev Journal := List Record

/-- The records of the level and of those above it. -/
def Journal.atOrAbove (level : Level) (journal : Journal) : Journal :=
  journal.filter fun r => level.severity ≤ r.level.severity

end InfixCalculator
