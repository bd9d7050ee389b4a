import InfixCalculator.Format.Concern
import InfixCalculator.Number.Format
import InfixCalculator.Text.DecimalDigit
import InfixCalculator.Text.Hexadecimal

/-!
# Field specifications

A field of a brace format can say how its value is laid out: a filler and an alignment, a sign, a width, a separator
between groups of digits, a precision and a letter, each of which may be missing.

* `FieldSpec.read` reads a specification.
* `FieldSpec.writeText` and `FieldSpec.writeReal` lay a text or a double out, or say why that cannot be done.
-/

namespace InfixCalculator

/-- The layout of a field. -/
structure FieldSpec where
  filler : Char
  alignment : Number.Alignment
  /-- The character for the sign: a dash, a plus sign or a space. -/
  sign : Option Char
  /-- A negative number that rounds to zero has no sign. -/
  plainZero : Bool
  alternate : Bool
  width : Option Nat
  /-- The separator of groups of digits. -/
  separator : Option Char
  precision : Option Nat
  letter : Option Char
  deriving DecidableEq

namespace FieldSpec

/-- What can be wrong with a specification, given the kind of the value. -/
inductive Fault where
  | numberTooLarge
  | twoSeparators
  | missingPrecision
  | leftOver (spec kind : String)
  | separatorWithLetter (separator letter : Char)
  | unknownLetter (letter : Char) (kind : String)
  | signOfText
  | spaceOfText
  | plainZeroOfText
  | alternateOfText
  | signAlignmentOfText
  | precisionTooLarge
  deriving DecidableEq

/-- A letter in a message: itself, or its code point. -/
def letterText (c : Char) : String :=
  if 32 < c.toNat ∧ c.toNat < 128 then String.singleton c
  else "\\x" ++ String.ofList (Text.hexadecimal 1 c.toNat)

/-- The message of a fault. -/
def Fault.message : Fault → String
  | numberTooLarge => "Too many decimal digits in format string"
  | twoSeparators => "Cannot specify both ',' and '_'."
  | missingPrecision => "Format specifier missing precision"
  | leftOver spec kind => "Invalid format specifier '" ++ spec ++ "' for object of type '" ++ kind ++ "'"
  | separatorWithLetter separator letter =>
    "Cannot specify '" ++ String.singleton separator ++ "' with '" ++ letterText letter ++ "'."
  | unknownLetter letter kind =>
    "Unknown format code '" ++ letterText letter ++ "' for object of type '" ++ kind ++ "'"
  | signOfText => "Sign not allowed in string format specifier"
  | spaceOfText => "Space not allowed in string format specifier"
  | plainZeroOfText => "Negative zero coercion (z) not allowed in string format specifier"
  | alternateOfText => "Alternate form (#) not allowed in string format specifier"
  | signAlignmentOfText => "'=' alignment not allowed in string format specifier"
  | precisionTooLarge => "precision too big"

/-! ## Reading -/

/-- The greatest number that a specification may hold. -/
def greatestNumber : Nat := Nat.pow 2 63 - 1

/-- The alignment of a character. -/
def alignmentOf? : Char → Option Number.Alignment
  | '<' => some .left
  | '>' => some .right
  | '^' => some .center
  | '=' => some .afterSign
  | _ => none

/-- The filler and the alignment at the front of a specification, and the rest of it. -/
def readAlignment : List Char → Option Char × Option Number.Alignment × List Char
  | [] => (none, none, [])
  | c :: cs =>
    match cs.head?.bind alignmentOf? with
    | some alignment => (some c, some alignment, cs.drop 1)
    | none =>
      match alignmentOf? c with
      | some alignment => (none, some alignment, cs)
      | none => (none, none, c :: cs)

/-- The first character if it is one of some, and the rest. -/
def readOneOf (choices : List Char) : List Char → Option Char × List Char
  | c :: cs => if choices.contains c then (some c, cs) else (none, c :: cs)
  | [] => (none, [])

/-- The number at the front of a specification, none without digits, and the rest. -/
def readNumber (cs : List Char) : Except Fault (Option Nat × List Char) :=
  let digits := cs.takeWhile Text.isDecimalDigit
  let n := Text.decimalValue digits
  if greatestNumber < n then .error .numberTooLarge
  else .ok (if digits.isEmpty then none else some n, cs.dropWhile Text.isDecimalDigit)

/-- The separator at the front of a specification, and the rest. -/
def readSeparator : List Char → Except Fault (Option Char × List Char)
  | ',' :: '_' :: _ => .error .twoSeparators
  | '_' :: ',' :: _ => .error .twoSeparators
  | cs => .ok (readOneOf [',', '_'] cs)

/-- The precision at the front of a specification, and the rest. -/
def readPrecision : List Char → Except Fault (Option Nat × List Char)
  | '.' :: cs => do
    let (n, rest) ← readNumber cs
    if n.isNone then throw .missingPrecision
    return (n, rest)
  | cs => .ok (none, cs)

/-- The letters that a separator can stand with. -/
def grouped : List Char := ['d', 'e', 'f', 'g', 'E', 'G', '%', 'F']

/-- The letters of numbers in other bases than ten. -/
def bases : List Char := ['b', 'o', 'x', 'X']

/-- The separator can stand with the letter. -/
def canGroup (separator : Char) (letter : Option Char) : Bool :=
  match letter with
  | none => true
  | some letter => grouped.contains letter || (separator = '_' && bases.contains letter)

/-- The specification of a value of a kind, with the alignment and the letter that the kind has by itself. Zeros before
the width fill numbers up after their sign. -/
def read (kind : String) (alignment : Number.Alignment) (letter : Option Char) (spec : List Char) :
    Except Fault FieldSpec := do
  let (filler, aligned, rest) := readAlignment spec
  let (sign, rest) := readOneOf [' ', '+', '-'] rest
  let (plainZero, rest) := readOneOf ['z'] rest
  let (alternate, rest) := readOneOf ['#'] rest
  let (zero, rest) := if filler.isNone then readOneOf ['0'] rest else (none, rest)
  let (width, rest) ← readNumber rest
  let (separator, rest) ← readSeparator rest
  let (precision, rest) ← readPrecision rest
  if 1 < rest.length then throw (.leftOver (String.ofList spec) kind)
  let letter := rest.head? <|> letter
  match separator, letter with
  | some s, some l => if !canGroup s letter then throw (.separatorWithLetter s l)
  | _, _ => pure ()
  let filling := if zero.isSome && alignment = .right then Number.Alignment.afterSign else alignment
  return {
    filler := (filler <|> zero).getD ' '
    alignment := aligned.getD filling
    sign := sign
    plainZero := plainZero.isSome
    alternate := alternate.isSome
    width := width
    separator := separator
    precision := precision
    letter := letter }

/-! ## Texts -/

/-- A text in a specification that was read for texts. -/
def writeText (f : FieldSpec) (kind : String) (cs : List Char) : Except Fault (List Char) :=
  if f.letter ≠ some 's' then .error (.unknownLetter (f.letter.getD 's') kind)
  else if f.sign = some ' ' then .error .spaceOfText
  else if f.sign.isSome then .error .signOfText
  else if f.plainZero then .error .plainZeroOfText
  else if f.alternate then .error .alternateOfText
  else if f.alignment = .afterSign then .error .signAlignmentOfText
  else .ok (Number.withinWidth f.alignment f.filler (f.width.getD 0) [] (cs.take (f.precision.getD cs.length)))

/-- A text laid out by the text of a specification. -/
def layText (spec cs : List Char) : Except Fault (List Char) := do
  if spec.isEmpty then return cs
  let f ← read "str" .left (some 's') spec
  f.writeText "str" cs

/-! ## Doubles -/

/-- The notation of a specification. -/
def notationOf? (f : FieldSpec) : Option Number.Notation :=
  match f.letter with
  | none => some (if f.precision.isNone then .shortest else .generalWithFraction)
  | some 'f' | some 'F' | some '%' => some .fixed
  | some 'e' | some 'E' => some .exponential
  | some 'g' | some 'G' | some 'n' => some .general
  | _ => none

/-- The number of digits in a group. -/
def groupSize : Nat := 3

/-- Digits, the last first, in groups with a separator between two of them. Zeros are put before them as long as fewer
than `missing` characters are there; `free` places are left in the group. -/
def groupDigits (separator : Char) (free missing : Nat) : List Char → List Char
  | [] => zeros separator free missing
  | c :: cs =>
    match free with
    | 0 => separator :: c :: groupDigits separator (groupSize - 1) (missing - 2) cs
    | free + 1 => c :: groupDigits separator free (missing - 1) cs
where
  /-- Zeros in groups, as many as are missing; no separator is the last of them. -/
  zeros (separator : Char) (free : Nat) : Nat → List Char
    | 0 => []
    | missing + 1 =>
      match free, missing with
      | 0, 0 => [separator, '0']
      | 0, missing + 1 => separator :: '0' :: zeros separator (groupSize - 1) missing
      | free + 1, missing => '0' :: zeros separator free missing

/-- The size of a number, with its leading digits in groups and filled up with zeros to a width. -/
def groupSizeText (separator : Char) (width : Nat) (size : List Char) : List Char :=
  let digits := size.takeWhile Number.isDigit
  let rest := size.dropWhile Number.isDigit
  if digits.isEmpty then size
  else (groupDigits separator groupSize (width - rest.length) digits.reverse).reverse ++ rest

/-- The digits of a size are all zero. -/
def showsZero (size : List Char) : Bool :=
  size.all fun c => c = '0' || !Number.isDigit c

/-- The sign that a specification shows. -/
def signText (f : FieldSpec) (negative : Bool) : List Char :=
  if negative then ['-']
  else
    match f.sign with
    | some '+' => ['+']
    | some ' ' => [' ']
    | _ => []

/-- A double in a notation. A percentage is shown as a hundred times the number. -/
def writeReal (f : FieldSpec) (style : Number.Notation) (x : Float) : Except Fault (List Char) :=
  if Number.greatestPrecision < f.precision.getD 0 then .error .precisionTooLarge
  else
    let percent := f.letter = some '%'
    let x := if percent then x * 100 else x
    let upper := (f.letter.map Char.isUpper).getD false
    let format : Number.Format := ⟨style, f.precision.getD 6, f.alternate, upper⟩
    let size := format.size x ++ if percent then ['%'] else []
    let negative := Number.isNegative x && !x.isNaN && !(f.plainZero && x.isFinite && showsZero size)
    let sign := f.signText negative
    let width := f.width.getD 0
    let body :=
      match f.separator with
      | none => size
      | some separator =>
        let zeros := f.filler = '0' && f.alignment = .afterSign
        groupSizeText separator (if zeros then width - sign.length else 0) size
    .ok (Number.withinWidth f.alignment f.filler width sign body)

/-- A double laid out by the text of a specification. -/
def layReal (spec : List Char) (x : Float) : Except Fault (List Char) := do
  if spec.isEmpty then return (Number.written x).toList
  let f ← read "float" .right none spec
  match f.notationOf? with
  | none => throw (.unknownLetter (f.letter.getD 's') "float")
  | some style => f.writeReal style x

end FieldSpec

end InfixCalculator
