import InfixCalculator.Format.FieldSpec
import InfixCalculator.Text.Quoted

/-!
# Brace formats

A brace format is a text with fields in braces; a doubled brace stands for one. A field names a value, by its name, by
its number, or by having no name at all and so taking the next number; parts of the value may be named after a point or
in square brackets. A mark and a letter may ask for the value in quotes, and a specification may say how it is laid
out, with further fields in it.

* `read` cuts a text into pieces; the last of them may be a fault.
* `write` puts values in the place of the fields, from the left, up to the first fault.
-/

namespace InfixCalculator.BraceFormat

/-- A value that a field can show. -/
inductive Value where
  | text (cs : List Char)
  | real (x : Float)
  /-- A kind of values, by its name. -/
  | kind (name : String)

namespace Value

/-- The name of the value's kind. -/
def kindName : Value → String
  | text _ => "str"
  | real _ => "float"
  | kind _ => "type"

/-- The value as a text. -/
def shown : Value → List Char
  | text cs => cs
  | real x => (Number.written x).toList
  | kind name => ("<class '" ++ name ++ "'>").toList

/-- The value as a text from which its kind can be told. -/
def described : Value → List Char
  | text cs => (Text.quoted (String.ofList cs)).toList
  | real x => ("np.float64(" ++ Number.written x ++ ")").toList
  | kind name => (kind name).shown

end Value

/-- What can be wrong with a format or its values. -/
inductive Fault where
  /-- An opening brace ends the format. -/
  | singleOpening
  /-- A closing brace closes nothing. -/
  | singleClosing
  /-- The name of a field holds an opening brace. -/
  | openingInName
  /-- A field is not closed. -/
  | unclosedField
  /-- The letter after the mark is missing. -/
  | missingConversion
  /-- The letter after the mark is not the last thing before a specification. -/
  | noSpecAfterConversion
  /-- The specification of a field is not closed. -/
  | unclosedSpec
  | unknownConversion (letter : Char)
  | tooDeep
  /-- A part of a value has no name. -/
  | emptyPart
  /-- Something stands between a bracket and the next part. -/
  | noPartAfterBracket
  | unclosedBracket
  | autoAfterManual
  | manualAfterAuto
  | numberTooLarge
  | spec (e : FieldSpec.Fault)
  /-- No specification is understood by values of this kind. -/
  | specOfKind (kind : String)
  | unknownName (name : String)
  | unknownNumber (n : Nat)
  | outOfText
  | namedCharacter
  | noParts (kind : String)
  | noProperty (owner property : String)
  deriving DecidableEq

namespace Fault

/-- The message of a fault. -/
def message : Fault → String
  | singleOpening => "Single '\x7b' encountered in format string"
  | singleClosing => "Single '\x7d' encountered in format string"
  | openingInName => "unexpected '\x7b' in field name"
  | unclosedField => "expected '\x7d' before end of string"
  | missingConversion => "end of string while looking for conversion specifier"
  | noSpecAfterConversion => "expected ':' after conversion specifier"
  | unclosedSpec => "unmatched '\x7b' in format spec"
  | unknownConversion letter =>
    "Unknown conversion specifier " ++
      if 32 < letter.toNat ∧ letter.toNat < 127 then String.singleton letter
      else "\\x" ++ String.ofList (Text.hexadecimal 1 letter.toNat)
  | tooDeep => "Max string recursion exceeded"
  | emptyPart => "Empty attribute in format string"
  | noPartAfterBracket => "Only '.' or '[' may follow ']' in format field specifier"
  | unclosedBracket => "Missing ']' in format string"
  | autoAfterManual => "cannot switch from manual field specification to automatic field numbering"
  | manualAfterAuto => "cannot switch from automatic field numbering to manual field specification"
  | numberTooLarge => "Too many decimal digits in format string"
  | spec e => e.message
  | specOfKind kind => "unsupported format string passed to " ++ kind ++ ".__format__"
  | unknownName name => Text.quoted name
  | unknownNumber n => "Replacement index " ++ Number.wholeText n ++ " out of range for positional args tuple"
  | outOfText => "string index out of range"
  | namedCharacter => "string indices must be integers, not 'str'"
  | noParts kind => "'" ++ kind ++ "' object is not subscriptable"
  | noProperty owner property => owner ++ " has no attribute '" ++ property ++ "'"

/-- What a fault is about. -/
def concern : Fault → Concern
  | unknownName _ => .name
  | unknownNumber _ | outOfText => .place
  | specOfKind _ | namedCharacter | noParts _ => .kind
  | noProperty _ _ => .property
  | _ => .form

end Fault

/-! ## Reading -/

/-- The opening brace. -/
def opening : Char := '\x7b'

/-- The closing brace. -/
def closing : Char := '\x7d'

/-- A piece of a format. A field has a name, a letter if a mark asks for one, and a specification. -/
inductive Piece where
  | char (c : Char)
  | field (name : List Char) (conversion : Option Char) (spec : List Char)
  | broken (e : Fault)
  deriving DecidableEq

/-- Where the reader stands, with what it has read of a field, the last character first. -/
inductive Place where
  /-- Outside fields. -/
  | outside
  /-- After an opening brace. -/
  | opened
  /-- After a closing brace outside fields. -/
  | closed
  /-- In the name of a field. -/
  | name (read : List Char)
  /-- In square brackets in the name of a field. -/
  | bracket (read : List Char)
  /-- After the mark. -/
  | mark (name : List Char)
  /-- After the letter that follows the mark. -/
  | converted (name : List Char) (letter : Char)
  /-- In a specification, inside some braces. -/
  | spec (name : List Char) (letter : Option Char) (depth : Nat) (read : List Char)

/-- A field of which all is read. -/
def closeField (name : List Char) (letter : Option Char) (spec : List Char) : Piece :=
  .field name.reverse letter spec.reverse

/-- A character in the name of a field: the next place, and the piece that it ends or the fault that it is. -/
def stepName (read : List Char) (c : Char) : Place × List Piece :=
  if c = opening then (.outside, [.broken .openingInName])
  else if c = closing then (.outside, [closeField read none []])
  else if c = '[' then (.bracket (c :: read), [])
  else if c = ':' then (.spec read none 0 [], [])
  else if c = '!' then (.mark read, [])
  else (.name (c :: read), [])

/-- A character in a specification. -/
def stepSpec (name : List Char) (letter : Option Char) (depth : Nat) (read : List Char) (c : Char) :
    Place × List Piece :=
  if c = opening then (.spec name letter (depth + 1) (c :: read), [])
  else if c = closing then
    match depth with
    | 0 => (.outside, [closeField name letter read])
    | depth + 1 => (.spec name letter depth (c :: read), [])
  else (.spec name letter depth (c :: read), [])

/-- One character: the next place, and the piece that it ends or the fault that it is. -/
def step (place : Place) (c : Char) : Place × List Piece :=
  match place with
  | .outside =>
    if c = opening then (.opened, []) else if c = closing then (.closed, []) else (.outside, [.char c])
  | .opened => if c = opening then (.outside, [.char c]) else stepName [] c
  | .closed => if c = closing then (.outside, [.char c]) else (.outside, [.broken .singleClosing])
  | .name read => stepName read c
  | .bracket read => (if c = ']' then .name (c :: read) else .bracket (c :: read), [])
  | .mark name => (.converted name c, [])
  | .converted name letter =>
    if c = closing then (.outside, [closeField name (some letter) []])
    else if c = ':' then (.spec name (some letter) 0 [], [])
    else (.outside, [.broken .noSpecAfterConversion])
  | .spec name letter depth read => stepSpec name letter depth read c

/-- What is wrong when a text ends at a place. -/
def atEnd : Place → List Piece
  | .outside => []
  | .opened => [.broken .singleOpening]
  | .closed => [.broken .singleClosing]
  | .name _ | .bracket _ => [.broken .unclosedField]
  | .mark _ => [.broken .missingConversion]
  | .converted _ _ | .spec _ _ _ _ => [.broken .unclosedSpec]

/-- The pieces of a text from a place on. What follows a fault does not count. -/
def readFrom (place : Place) : List Char → List Piece
  | [] => atEnd place
  | c :: cs =>
    let (place, pieces) := step place c
    pieces ++ readFrom place cs

/-- The pieces of a text. -/
def read (cs : List Char) : List Piece :=
  readFrom .outside cs

/-! ## Values -/

/-- A part of a value. -/
inductive Part where
  /-- What stands after a point. -/
  | property (name : List Char)
  /-- A number in square brackets. -/
  | item (n : Nat)
  /-- Another text in square brackets. -/
  | key (name : List Char)

/-- The number that a text is, none if it is no number; it may be too large as soon as its digits are. -/
def number (cs : List Char) : Except Fault (Option Nat) :=
  let n := Text.decimalValue (cs.takeWhile Text.isDecimalDigit)
  if FieldSpec.greatestNumber < n then .error .numberTooLarge
  else .ok (if cs.isEmpty || !cs.all Text.isDecimalDigit then none else some n)

/-- A character that begins a part of a value. -/
def beginsPart (c : Char) : Bool :=
  c = '.' || c = '['

/-- A part of a value in square brackets. -/
def bracketPart (name : List Char) : Except Fault Part := do
  match ← number name with
  | some n => return .item n
  | none => if name.isEmpty then throw .emptyPart else return .key name

/-- The first part in the name of a field, from the character that begins it, and the rest of the name. -/
def readPart (c : Char) (cs : List Char) : Except Fault (Part × List Char) :=
  if c = '.' then
    let name := cs.takeWhile fun c => !beginsPart c
    if name.isEmpty then .error .emptyPart else .ok (.property name, cs.dropWhile fun c => !beginsPart c)
  else if c = '[' then
    match cs.dropWhile (· ≠ ']') with
    | [] => .error .unclosedBracket
    | _ :: rest => (bracketPart (cs.takeWhile (· ≠ ']'))).map fun part => (part, rest)
  else .error .noPartAfterBracket

/-- The character of a text at a place. -/
def characterAt (cs : List Char) (n : Nat) : Except Fault Value :=
  match cs[n]? with
  | some c => .ok (.text [c])
  | none => .error .outOfText

/-- A value in a message about its properties. -/
def owner : Value → String
  | .kind name => "type object '" ++ name ++ "'"
  | v => "'" ++ v.kindName ++ "' object"

/-- A property of a value. -/
def property (v : Value) (name : String) : Except Fault Value :=
  match v, name with
  | .kind name, "__name__" => .ok (.text name.toList)
  | v, "__class__" => .ok (.kind v.kindName)
  | .real x, "real" => .ok (.real x)
  | .real _, "imag" => .ok (.real 0)
  | v, name => .error (.noProperty (owner v) name)

/-- A part of a value. -/
def part (v : Value) : Part → Except Fault Value
  | .property name => property v (String.ofList name)
  | .item n =>
    match v with
    | .text cs => characterAt cs n
    | v => .error (.noParts v.kindName)
  | .key _ =>
    match v with
    | .text _ => .error .namedCharacter
    | v => .error (.noParts v.kindName)

/-- The part of a value that the rest of a field's name leads to; `fuel` bounds the number of steps. -/
def parts : Nat → Value → List Char → Except Fault Value
  | 0, v, _ => .ok v
  | _ + 1, v, [] => .ok v
  | fuel + 1, v, c :: cs => do
    let (step, rest) ← readPart c cs
    parts fuel (← part v step) rest

/-- The values that fields can name: by number and by name. -/
structure Source where
  numbered : List Value := []
  named : List (List Char × Value) := []

/-- How the fields of a format have been numbered so far. -/
inductive Numbering where
  /-- There was no number yet. -/
  | undecided
  /-- Fields take the next number. -/
  | automatic (next : Nat)
  /-- Fields say their numbers. -/
  | manual

/-- The number of a field that has none of its own, and the numbering after it. -/
def Numbering.take : Numbering → Except Fault (Nat × Numbering)
  | undecided => .ok (0, automatic 1)
  | automatic next => .ok (next, automatic (next + 1))
  | manual => .error .autoAfterManual

/-- The numbering after a field that says its number. -/
def Numbering.say : Numbering → Except Fault Numbering
  | undecided | manual => .ok manual
  | automatic _ => .error .manualAfterAuto

/-- The value with a number. -/
def Source.atNumber (source : Source) (n : Nat) : Except Fault Value :=
  match source.numbered[n]? with
  | some v => .ok v
  | none => .error (.unknownNumber n)

/-- The value with a name. -/
def Source.atName (source : Source) (name : List Char) : Except Fault Value :=
  match source.named.lookup name with
  | some v => .ok v
  | none => .error (.unknownName (String.ofList name))

/-- The value that a field names, and the numbering after it. -/
def Source.find (source : Source) (numbering : Numbering) (name : List Char) : Except Fault (Value × Numbering) := do
  let first := name.takeWhile fun c => !beginsPart c
  let rest := name.dropWhile fun c => !beginsPart c
  let n ← number first
  let (v, numbering) ←
    if first.isEmpty then do
      let (n, numbering) ← numbering.take
      pure (← source.atNumber n, numbering)
    else
      match n with
      | some n => do
        let numbering ← numbering.say
        pure (← source.atNumber n, numbering)
      | none => do pure (← source.atName first, numbering)
  return (← parts rest.length v rest, numbering)

/-! ## Writing -/

/-- The value that the letter after the mark makes of a value; a null character is no letter. -/
def convert (v : Value) : Option Char → Except Fault Value
  | none | some '\x00' => .ok v
  | some 's' => .ok (.text v.shown)
  | some 'r' => .ok (.text v.described)
  | some 'a' => .ok (.text (Text.inAscii v.described))
  | some letter => .error (.unknownConversion letter)

/-- A value laid out by the text of a specification. -/
def lay (spec : List Char) : Value → Except Fault (List Char)
  | .text cs => (FieldSpec.layText spec cs).mapError .spec
  | .real x => (FieldSpec.layReal spec x).mapError .spec
  | v => if spec.isEmpty then .ok v.shown else .error (.specOfKind v.kindName)

/-- The specification of a field, with the fields in it written. -/
def expandSpec (nested : Numbering → List Char → Except Fault (List Char × Numbering)) (numbering : Numbering)
    (spec : List Char) : Except Fault (List Char × Numbering) :=
  if spec.contains opening then nested numbering spec else .ok (spec, numbering)

/-- The pieces with values in the place of their fields, and the numbering after them; `nested` writes the fields in
specifications. -/
def writePieces (nested : Numbering → List Char → Except Fault (List Char × Numbering)) (source : Source)
    (numbering : Numbering) : List Piece → Except Fault (List Char × Numbering)
  | [] => .ok ([], numbering)
  | .char c :: rest => do
    let (more, numbering) ← writePieces nested source numbering rest
    return (c :: more, numbering)
  | .broken e :: _ => .error e
  | .field name conversion spec :: rest => do
    let (v, numbering) ← source.find numbering name
    let v ← convert v conversion
    let (spec, numbering) ← expandSpec nested numbering spec
    let text ← lay spec v
    let (more, numbering) ← writePieces nested source numbering rest
    return (text ++ more, numbering)

/-- A format with values in the place of its fields, and the numbering after it. Fields can stand in the specifications
of fields up to a depth. -/
def writeNested (source : Source) : Nat → Numbering → List Char → Except Fault (List Char × Numbering)
  | 0, _, _ => .error .tooDeep
  | depth + 1, numbering, cs => writePieces (writeNested source depth) source numbering (read cs)

/-- How deep formats can be nested. -/
def greatestDepth : Nat := 2

/-- A format with values in the place of its fields. -/
def write (source : Source) (cs : List Char) : Except Fault (List Char) :=
  (writeNested source greatestDepth .undecided cs).map (·.1)

end InfixCalculator.BraceFormat
