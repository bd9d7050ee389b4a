import InfixCalculator.Format.Concern
import InfixCalculator.Number.Format
import InfixCalculator.Text.Quoted

/-!
# Percent formats

A percent format is a text with conversions such as `%(name)-8s` or `%.10g` in it: a percent sign, the name of a value
in parentheses, flags, a width, a precision and a letter, of which only the sign and the letter have to be there. A
doubled percent sign stands for one.

* `read` cuts a text into pieces; the last of them may be a fault.
* `write` puts values in the place of the conversions, from the left, up to the first fault.
-/

namespace InfixCalculator.PercentFormat

/-- A value that a conversion can show. -/
inductive Value where
  | text (s : String)
  | whole (n : Int)
  | real (x : Float)
  /-- A value of another kind, which shows as a fixed text. -/
  | other (kind shown : String)

namespace Value

/-- The name of the value's kind. -/
def kindName : Value → String
  | text _ => "str"
  | whole _ => "int"
  | real _ => "numpy.float64"
  | other kind _ => kind

/-- The text of a whole number. -/
def wholeChars (n : Int) : List Char :=
  if n < 0 then '-' :: Number.digitsOf n.natAbs else Number.digitsOf n.natAbs

/-- The value as a text. -/
def shown : Value → List Char
  | text s => s.toList
  | whole n => wholeChars n
  | real x => (Number.written x).toList
  | other _ shown => shown.toList

/-- The value as a text from which its kind can be told. -/
def described : Value → List Char
  | text s => (Text.quoted s).toList
  | whole n => wholeChars n
  | real x => ("np.float64(" ++ Number.written x ++ ")").toList
  | other _ shown => shown.toList

end Value

/-- What can be wrong with a format or its values. -/
inductive Fault where
  /-- The name of a value has no closing parenthesis. -/
  | unclosedName
  /-- A conversion has no letter. -/
  | unfinished
  | widthTooLarge
  | precisionTooLarge
  /-- No conversion has this letter, which stands at the position. -/
  | unknownLetter (letter : Char) (position : Nat)
  /-- All values have been shown. -/
  | noValue
  /-- There is no value of this name. -/
  | unknownName (name : String)
  /-- The value has no parts with names. -/
  | noNames
  /-- A width or precision that is to be taken from the values is no whole number. -/
  | countNotWhole
  | notWhole (letter : Char) (kind : String)
  | notNumber (letter : Char) (kind : String)
  | notReal (kind : String)
  | notCharacter
  | notInUnicode
  /-- An infinite number has no digits. -/
  | infinite
  | notANumber
  deriving DecidableEq

namespace Fault

/-- A letter in a message. -/
def letterText (c : Char) : List Char :=
  [if 31 ≤ c.toNat ∧ c.toNat ≤ 126 then c else '?']

/-- The message of a fault. -/
def message : Fault → String
  | unclosedName => "incomplete format key"
  | unfinished => "incomplete format"
  | widthTooLarge => "width too big"
  | precisionTooLarge => "precision too big"
  | unknownLetter letter position =>
    "unsupported format character '" ++ String.ofList (letterText letter) ++ "' (0x" ++
      String.ofList (Text.hexadecimal 1 letter.toNat) ++ ") at index " ++ Number.wholeText position
  | noValue => "not enough arguments for format string"
  | unknownName name => Text.quoted name
  | noNames => "invalid index to scalar variable."
  | countNotWhole => "* wants int"
  | notWhole letter kind =>
    "%" ++ String.singleton letter ++ " format: an integer is required, not " ++ kind
  | notNumber letter kind =>
    "%" ++ String.singleton letter ++ " format: a real number is required, not " ++ kind
  | notReal kind => "must be real number, not " ++ kind
  | notCharacter => "%c requires int or char"
  | notInUnicode => "%c arg not in range(0x110000)"
  | infinite => "cannot convert float infinity to integer"
  | notANumber => "cannot convert float NaN to integer"

/-- What a fault is about. -/
def concern : Fault → Concern
  | unclosedName | unfinished | widthTooLarge | precisionTooLarge | unknownLetter _ _ | notANumber => .form
  | unknownName _ => .name
  | noNames => .place
  | noValue | countNotWhole | notWhole _ _ | notNumber _ _ | notReal _ | notCharacter => .kind
  | notInUnicode | infinite => .range

end Fault

/-! ## Reading -/

/-- The flags of a conversion. -/
structure Flags where
  leftAligned : Bool
  plus : Bool
  space : Bool
  alternate : Bool
  zeroPadded : Bool
  deriving DecidableEq

/-- The flags among characters. -/
def Flags.ofChars (cs : List Char) : Flags where
  leftAligned := cs.contains '-'
  plus := cs.contains '+'
  space := cs.contains ' '
  alternate := cs.contains '#'
  zeroPadded := cs.contains '0'

/-- A conversion. -/
structure Conversion where
  flags : Flags
  width : Nat
  precision : Option Nat
  letter : Char
  /-- The position of the letter. -/
  position : Nat
  deriving DecidableEq

/-- What a percent sign can lead to. -/
inductive Request where
  | show (conversion : Conversion)
  /-- A width or precision is to be taken from the values. -/
  | count
  | broken (e : Fault)
  deriving DecidableEq

/-- A piece of a format. -/
inductive Piece where
  | char (c : Char)
  | value (name : Option (List Char)) (request : Request)
  | broken (e : Fault)
  deriving DecidableEq

/-- A character of flags. -/
def isFlag (c : Char) : Bool :=
  c = '-' || c = '+' || c = ' ' || c = '#' || c = '0'

/-- A letter for the size of a number, which means nothing. -/
def isSizeLetter (c : Char) : Bool :=
  c = 'h' || c = 'l' || c = 'L'

/-- The greatest width. -/
def greatestWidth : Nat := Nat.pow 2 63 - 1

/-- The name up to the parenthesis that closes it, and what follows; parentheses in it come in pairs. -/
def readName? (depth : Nat) : List Char → Option (List Char × List Char)
  | [] => none
  | c :: cs =>
    if c = ')' then
      match depth with
      | 0 => some ([], cs)
      | depth + 1 => (readName? depth cs).map fun (name, rest) => (c :: name, rest)
    else (readName? (if c = '(' then depth + 1 else depth) cs).map fun (name, rest) => (c :: name, rest)

/-- The letter of a conversion of which all else is read. The text has `length` characters. -/
def readLetter (length : Nat) (flags : Flags) (width : Nat) (precision : Option Nat) (cs : List Char) :
    Request × List Char :=
  let cs :=
    match cs with
    | c :: rest => if isSizeLetter c then rest else c :: rest
    | [] => []
  match cs with
  | [] => (.broken .unfinished, [])
  | letter :: rest => (.show ⟨flags, width, precision, letter, length - cs.length⟩, rest)

/-- The precision of a conversion, and the rest of it. -/
def readPrecision (length : Nat) (flags : Flags) (width : Nat) : List Char → Request × List Char
  | '.' :: '*' :: rest => (.count, rest)
  | '.' :: cs =>
    let precision := Number.digitsValue (cs.takeWhile Number.isDigit)
    if Number.greatestPrecision < precision then (.broken .precisionTooLarge, [])
    else readLetter length flags width (some precision) (cs.dropWhile Number.isDigit)
  | cs => readLetter length flags width none cs

/-- A conversion after the name of its value. -/
def readConversion (length : Nat) (cs : List Char) : Request × List Char :=
  let flags := Flags.ofChars (cs.takeWhile isFlag)
  match cs.dropWhile isFlag with
  | '*' :: rest => (.count, rest)
  | rest =>
    let width := Number.digitsValue (rest.takeWhile Number.isDigit)
    if greatestWidth < width then (.broken .widthTooLarge, [])
    else readPrecision length flags width (rest.dropWhile Number.isDigit)

/-- What follows a percent sign, and the text after it. -/
def readPiece (length : Nat) : List Char → Piece × List Char
  | '%' :: rest => (.char '%', rest)
  | '(' :: cs =>
    match readName? 0 cs with
    | none => (.broken .unclosedName, [])
    | some (name, rest) =>
      let (request, rest) := readConversion length rest
      (.value (some name) request, rest)
  | cs =>
    let (request, rest) := readConversion length cs
    (.value none request, rest)

/-- The pieces of a text with `length` characters, from a place in it on; `fuel` bounds their number. -/
def readPieces (length : Nat) : Nat → List Char → List Piece
  | 0, _ => []
  | _ + 1, [] => []
  | fuel + 1, c :: cs =>
    if c = '%' then
      let (piece, rest) := readPiece length cs
      piece :: readPieces length fuel rest
    else .char c :: readPieces length fuel cs

/-- The pieces of a text. Each takes a character at least. -/
def read (cs : List Char) : List Piece :=
  readPieces cs.length cs.length cs

/-! ## Writing -/

/-- A sign and a body in the width of a conversion; zeros go between them. -/
def Conversion.fill (c : Conversion) (sign body : List Char) : List Char :=
  if c.flags.leftAligned then Number.withinWidth .left ' ' c.width sign body
  else if c.flags.zeroPadded then Number.withinWidth .afterSign '0' c.width sign body
  else Number.withinWidth .right ' ' c.width sign body

/-- A text in the width of a conversion. -/
def Conversion.align (c : Conversion) (cs : List Char) : List Char :=
  Number.withinWidth (if c.flags.leftAligned then .left else .right) ' ' c.width [] cs

/-- A text in the width of a conversion, and cut to its precision. -/
def Conversion.writeText (c : Conversion) (cs : List Char) : List Char :=
  match c.precision with
  | some n => c.align (cs.take n)
  | none => c.align cs

/-- The sign that a conversion shows. -/
def Conversion.sign (c : Conversion) (negative : Bool) : List Char :=
  if negative then ['-'] else if c.flags.plus then ['+'] else if c.flags.space then [' '] else []

/-- The base of a conversion of whole numbers, with the mark of the base. -/
def baseOf (letter : Char) : Nat × List Char :=
  match letter with
  | 'o' => (8, ['0', 'o'])
  | 'x' => (16, ['0', 'x'])
  | 'X' => (16, ['0', 'X'])
  | _ => (10, [])

/-- A whole number. The precision is the least number of its digits. -/
def Conversion.writeWhole (c : Conversion) (n : Int) : List Char :=
  let (base, mark) := baseOf c.letter
  let digits := Number.padDigits (c.precision.getD 0) (Nat.toDigits base n.natAbs)
  let digits := if c.letter = 'X' then digits.map Char.toUpper else digits
  c.fill (c.sign (n < 0) ++ if c.flags.alternate then mark else []) digits

/-- The notation of a letter. -/
def notationOf? (letter : Char) : Option Number.Notation :=
  match letter.toLower with
  | 'f' => some .fixed
  | 'e' => some .exponential
  | 'g' => some .general
  | _ => none

/-- A double in a notation. -/
def Conversion.writeReal (c : Conversion) (style : Number.Notation) (x : Float) : List Char :=
  let format : Number.Format := ⟨style, c.precision.getD 6, c.flags.alternate, c.letter.isUpper⟩
  c.fill (c.sign (Number.isNegative x && !x.isNaN)) (format.size x)

/-- The letter belongs to a conversion of whole numbers in another base than ten. -/
def isBaseLetter (letter : Char) : Bool :=
  letter = 'o' || letter = 'x' || letter = 'X'

/-- The whole number that a value is, or the whole part of a double where ten is the base. -/
def wholeOf (letter : Char) : Value → Except Fault Int
  | .whole n => .ok n
  | .real x =>
    if isBaseLetter letter then .error (.notWhole letter (Value.kindName (.real x)))
    else if x.isInf then .error .infinite
    else if x.isNaN then .error .notANumber
    else
      let size : Int := Number.units x / Number.unitsInOne
      .ok (if Number.isNegative x then -size else size)
  | v => .error (if isBaseLetter letter then .notWhole letter v.kindName else .notNumber letter v.kindName)

/-- The double that a value is. -/
def realOf : Value → Except Fault Float
  | .real x => .ok x
  | .whole n => .ok (Number.ofUnitRatio (n < 0) (n.natAbs * Number.unitsInOne) 1)
  | v => .error (.notReal v.kindName)

/-- The character that a value is, or whose code point it is. -/
def characterOf : Value → Except Fault Char
  | .whole n => if 0 ≤ n ∧ n < 0x110000 then .ok (Char.ofNat n.toNat) else .error .notInUnicode
  | .text s =>
    match s.toList with
    | [c] => .ok c
    | _ => .error .notCharacter
  | _ => .error .notCharacter

/-- A value in a conversion. -/
def Conversion.write (c : Conversion) (v : Value) : Except Fault (List Char) :=
  match c.letter with
  | 's' => .ok (c.writeText v.shown)
  | 'r' => .ok (c.writeText v.described)
  | 'a' => .ok (c.writeText (Text.inAscii v.described))
  | 'c' => (characterOf v).map fun ch => c.align [ch]
  | 'd' | 'i' | 'u' | 'o' | 'x' | 'X' => (wholeOf c.letter v).map c.writeWhole
  | letter =>
    match notationOf? letter with
    | some style => (realOf v).map (c.writeReal style)
    | none => .error (.unknownLetter letter c.position)

/-- Where values come from: the one that is there without a name, and those with names. -/
structure Source where
  unnamed : Option Value
  named : List Char → Except Fault Value

/-- What a request writes, given the value that is there for it. -/
def Request.write (available : Option Value) : Request → Except Fault (List Char)
  | .broken e => .error e
  | .count =>
    match available with
    | some (.whole _) | none => .error .noValue
    | some _ => .error .countNotWhole
  | .show c =>
    match available with
    | none => .error .noValue
    | some v => c.write v

/-- The pieces with values in the place of their conversions. A value is there for one conversion: the unnamed one for
the first, and a named one for that which names it. -/
def writePieces (source : Source) (available : Option Value) : List Piece → Except Fault (List Char)
  | [] => .ok []
  | .char c :: rest => (writePieces source available rest).map (c :: ·)
  | .broken e :: _ => .error e
  | .value name request :: rest => do
    let available ← match name with
      | none => pure available
      | some name => (source.named name).map some
    let text ← request.write available
    let more ← writePieces source none rest
    return text ++ more

/-- The format with values in the place of its conversions. -/
def write (source : Source) (cs : List Char) : Except Fault (List Char) :=
  writePieces source source.unnamed (read cs)

end InfixCalculator.PercentFormat
