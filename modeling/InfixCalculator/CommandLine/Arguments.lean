import InfixCalculator.Journal
import InfixCalculator.Text.DecimalDigit

/-!
# Arguments

* `Arguments.parse` reads the words of a command line: at most one expression, and options anywhere before or after
  it. An option may be cut short as long as one option only begins that way, and its value is the next word or stands
  after an equals sign. After a bare `--` every word is taken as it is, and after an equals sign `--` is no value.
* `wordKind` tells options from other words: a word with a dash is no option if it is a negative number or holds a
  space.
-/

namespace InfixCalculator.CommandLine

/-- The options. -/
inductive Opt where
  | help
  | file
  | column
  | json
  | verbose
  | strict
  | noPartial
  | outputPath
  | logLevel
  deriving DecidableEq

namespace Opt

/-- All options. -/
def all : List Opt :=
  [help, file, column, json, verbose, strict, noPartial, outputPath, logLevel]

/-- The name of the option. -/
def name : Opt → String
  | help => "--help"
  | file => "--file"
  | column => "--column"
  | json => "--json"
  | verbose => "--verbose"
  | strict => "--strict"
  | noPartial => "--no_partial"
  | outputPath => "--output_path"
  | logLevel => "--log_level"

/-- The option takes a value. -/
def takesValue : Opt → Bool
  | file | column | outputPath | logLevel => true
  | help | json | verbose | strict | noPartial => false

end Opt

/-- What a word of the command line is. -/
inductive WordKind where
  /-- A word that is not an option. -/
  | plain
  /-- An option, with the value that stands in the same word. -/
  | option (opt : Opt) (value : Option String)
  /-- No option has that name. -/
  | unknown
  /-- Several options begin with that name. -/
  | ambiguous
  deriving DecidableEq

/-- The part of a word before its first equals sign, and the part after it. -/
def splitValue (word : String) : String × Option String :=
  let cs := word.toList
  let isEquals := fun c => c = '='
  match cs.dropWhile (!isEquals ·) with
  | [] => (word, none)
  | _ :: value => (String.ofList (cs.takeWhile (!isEquals ·)), some (String.ofList value))

/-- The characters are decimal digits, at least one. -/
def areDigits (cs : List Char) : Bool :=
  !cs.isEmpty && cs.all Text.isDecimalDigit

/-- The text after a dash is a number without an exponent: digits, or a point and digits with or without digits before
them. A line feed may end it. -/
def isUnsignedNumber (cs : List Char) : Bool :=
  let cs := if cs.getLast? = some '\n' then cs.dropLast else cs
  areDigits cs ||
    match cs.dropWhile Text.isDecimalDigit with
    | '.' :: fraction => areDigits fraction
    | _ => false

/-- The word is a negative number. -/
def isNegativeNumber (word : String) : Bool :=
  match word.toList with
  | '-' :: cs => isUnsignedNumber cs
  | _ => false

/-- The options whose names begin as a word does. -/
def optionsFrom (start : String) : List Opt :=
  Opt.all.filter fun opt => start.toList.isPrefixOf opt.name.toList

/-- What a word that begins with a dash and is no negative number with a space is. -/
def dashedKind (word : String) : WordKind :=
  if isNegativeNumber word || word.toList.contains ' ' then .plain else .unknown

/-- What a word is. The letter `h` after a single dash asks for help, as many times as it stands there. -/
def wordKind (word : String) : WordKind :=
  match word.toList with
  | [] => .plain
  | ['-'] => .plain
  | '-' :: 'h' :: rest =>
    if rest.all (· = 'h') then .option .help none else .option .help (some (String.ofList rest))
  | '-' :: c :: _ =>
    let (name, value) := splitValue word
    match Opt.all.find? fun opt => opt.name == word with
    | some opt => .option opt none
    | none =>
      if c = '-' then
        match optionsFrom name with
        | [opt] => .option opt value
        | [] => dashedKind word
        | _ => .ambiguous
      else dashedKind word
  | _ => .plain

/-- What the option for the level asks for: a level, or nothing. -/
inductive LevelChoice where
  | level (level : Level)
  | nothing
  deriving DecidableEq

/-- What a command line asks for. -/
structure Arguments where
  expression : Option String := none
  file : Option String := none
  column : Option String := none
  json : Bool := false
  verbose : Bool := false
  strict : Bool := false
  noPartial : Bool := false
  outputPath : Option String := none
  level : Option LevelChoice := none
  deriving DecidableEq

namespace Arguments

/-- What ends a run before it begins. -/
inductive Refusal where
  /-- The words make no sense. -/
  | usage
  /-- The words ask for help. -/
  | help
  deriving DecidableEq

/-- The arguments with an option that takes no value, and that stands alone. -/
def setFlag (args : Arguments) : Opt → Except Refusal Arguments
  | .json => .ok { args with json := true }
  | .verbose => .ok { args with verbose := true }
  | .strict => .ok { args with strict := true }
  | .noPartial => .ok { args with noPartial := true }
  | .help => .error .help
  | _ => .error .usage

/-- The arguments with the value of an option. A level has to be one of the levels. -/
def setValue (args : Arguments) (value : String) : Opt → Except Refusal Arguments
  | .file => .ok { args with file := some value }
  | .column => .ok { args with column := some value }
  | .outputPath => .ok { args with outputPath := some value }
  | .logLevel =>
    match Level.ofName? value with
    | some level => .ok { args with level := some (.level level) }
    | none => .error .usage
  | _ => .error .usage

/-- The arguments with the value of an option that stands in the same word. -/
def setOwnValue (args : Arguments) (value : String) (opt : Opt) : Except Refusal Arguments :=
  if value = "--" then
    if opt = .logLevel then .ok { args with level := some .nothing } else args.setValue "" opt
  else args.setValue value opt

/-- Where the expression is among the words read so far. -/
inductive Progress where
  | expected
  | justRead
  | readBefore
  deriving DecidableEq

/-- The place of the expression after a word that is not the expression. -/
def Progress.next : Progress → Progress
  | expected => expected
  | justRead | readBefore => readBefore

/-- The arguments with the words after a bare `--`. -/
def parseRest (progress : Progress) (args : Arguments) (rest : List String) : Except Refusal Arguments :=
  match progress, rest with
  | .expected, [] => .ok args
  | .expected, [e] => .ok { args with expression := some e }
  | .justRead, [] => .ok args
  | _, _ => .error .usage

/-- The arguments with further words. A word that has no place is `surplus`; it is refused only once all words are
read, in case that one of them asks for help. -/
def parseWords (surplus : Bool) (progress : Progress) (args : Arguments) : List String → Except Refusal Arguments
  | [] => if surplus then .error .usage else .ok args
  | word :: rest =>
    if word = "--" then if surplus then .error .usage else parseRest progress args rest
    else
      match wordKind word with
      | .ambiguous => .error .usage
      | .unknown => parseWords true progress.next args rest
      | .plain =>
        if progress = .expected then parseWords surplus .justRead { args with expression := some word } rest
        else parseWords true progress args rest
      | .option opt (some value) => do parseWords surplus progress.next (← args.setOwnValue value opt) rest
      | .option opt none =>
        if opt.takesValue then
          match rest with
          | [] => .error .usage
          | value :: rest =>
            if value ≠ "--" ∧ wordKind value = .plain then do
              parseWords surplus progress.next (← args.setValue value opt) rest
            else .error .usage
        else do parseWords surplus progress.next (← args.setFlag opt) rest

/-- The file of expressions, if one is named. -/
def file? (args : Arguments) : Option String :=
  args.file.filter (· ≠ "")

/-- The file for the results, if one is named. -/
def outputPath? (args : Arguments) : Option String :=
  args.outputPath.filter (· ≠ "")

/-- Several options begin as a word before a bare `--` does. -/
def hasAmbiguity (words : List String) : Bool :=
  (words.takeWhile (· ≠ "--")).any fun word => wordKind word = .ambiguous

/-- What a command line asks for; it has to name an expression or a file. -/
def parse (words : List String) : Except Refusal Arguments := do
  if hasAmbiguity words then throw .usage
  let args ← parseWords false .expected {} words
  if args.expression.isNone && args.file?.isNone then throw .usage
  return args

end Arguments

end InfixCalculator.CommandLine
