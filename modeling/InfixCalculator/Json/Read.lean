import InfixCalculator.Json.Basic

/-!
# JSON from its writing

* `Json.read?` reads a text that holds one value and blanks around it. It takes all of JSON, and the words `NaN`,
  `Infinity` and `-Infinity`. A number with a point or an exponent is a double, any other a whole number.
-/

namespace InfixCalculator

namespace Json

/-- The text without the blanks that may stand between two parts of a value. -/
def skipBlanks (cs : List Char) : List Char :=
  cs.dropWhile fun c => c = ' ' || c = '\n' || c = '\t' || c = '\r'

/-- The number that four hexadecimal digits stand for. -/
def unit? (a b c d : Char) : Option Nat := do
  let a ← Text.hexDigit? a
  let b ← Text.hexDigit? b
  let c ← Text.hexDigit? c
  let d ← Text.hexDigit? d
  return ((a * 16 + b) * 16 + c) * 16 + d

/-- The character that a letter after a backslash stands for. -/
def escape? : Char → Option Char
  | '\x22' => some '\x22'
  | '\\' => some '\\'
  | '/' => some '/'
  | 'b' => some '\x08'
  | 'f' => some '\x0c'
  | 'n' => some '\n'
  | 'r' => some '\r'
  | 't' => some '\t'
  | _ => none

/-- The unit is the first of a pair. -/
def isHighSurrogate (n : Nat) : Bool :=
  0xD800 ≤ n && n < 0xDC00

/-- The code point of a pair of units. -/
def pairCodePoint (high low : Nat) : Nat :=
  0x10000 + (high - 0xD800) * 0x400 + (low - 0xDC00)

/-- The character of a code point, none for a surrogate. -/
def char? (n : Nat) : Option Char :=
  if n.isValidChar then some (Char.ofNat n) else none

/-- The characters of a text up to its closing mark, and what follows the mark. The unit of a pair that waits for its
partner is handed on. -/
def readText? (high : Option Nat) : List Char → Option (List Char × List Char)
  | [] => none
  | '\\' :: 'u' :: a :: b :: c :: d :: cs =>
    match unit? a b c d, high with
    | none, _ => none
    | some n, some h => do
      let ch ← char? (pairCodePoint h n)
      let (chars, rest) ← readText? none cs
      return (ch :: chars, rest)
    | some n, none =>
      if isHighSurrogate n then readText? (some n) cs
      else do
        let ch ← char? n
        let (chars, rest) ← readText? none cs
        return (ch :: chars, rest)
  | c :: cs =>
    if high.isSome then none
    else if c = '\x22' then some ([], cs)
    else if c = '\\' then
      match cs with
      | [] => none
      | e :: cs => do
        let ch ← escape? e
        let (chars, rest) ← readText? none cs
        return (ch :: chars, rest)
    else do
      let (chars, rest) ← readText? none cs
      return (c :: chars, rest)

/-- A character of a number. -/
def isNumberChar (c : Char) : Bool :=
  Number.isDigit c || c = '-' || c = '+' || c = '.' || c = 'e' || c = 'E'

/-- The whole number that a text is. -/
def integer? : List Char → Option Int
  | '-' :: cs => if cs ≠ [] ∧ cs.all Number.isDigit then some (-(Number.digitsValue cs : Int)) else none
  | cs => if cs ≠ [] ∧ cs.all Number.isDigit then some (Number.digitsValue cs : Int) else none

/-- The number that a text is. -/
def number? (cs : List Char) : Option Json :=
  match integer? cs with
  | some n => some (integer n)
  | none => (Number.readWritten? (String.ofList cs)).map real

/-- The words that stand for values. -/
def words : List (List Char × Json) :=
  [("null".toList, null), ("true".toList, bool true), ("false".toList, bool false),
    ("NaN".toList, real Number.notANumber), ("Infinity".toList, real Number.infinity),
    ("-Infinity".toList, real (Number.negate Number.infinity))]

/-- The value without parts at the front of a text, and what follows it. -/
def readAtom? (cs : List Char) : Option (Json × List Char) :=
  match words.find? fun w => w.1.isPrefixOf cs with
  | some (w, j) => some (j, cs.drop w.length)
  | none => do
    let j ← number? (cs.takeWhile isNumberChar)
    return (j, cs.dropWhile isNumberChar)

mutual

/-- The value at the front of a text, and what follows it. -/
def readValue? : Nat → List Char → Option (Json × List Char)
  | 0, _ => none
  | fuel + 1, cs =>
    match skipBlanks cs with
    | '\x22' :: cs => do
      let (s, rest) ← readText? none cs
      return (text (String.ofList s), rest)
    | '[' :: cs =>
      match skipBlanks cs with
      | ']' :: rest => some (array [], rest)
      | cs => do
        let (j, rest) ← readValue? fuel cs
        let (js, rest) ← readItems? fuel rest
        return (array (j :: js), rest)
    | '\x7b' :: cs =>
      match skipBlanks cs with
      | '\x7d' :: rest => some (object [], rest)
      | cs => do
        let (m, rest) ← readMember? fuel cs
        let (ms, rest) ← readMembers? fuel rest
        return (object (m :: ms), rest)
    | cs => readAtom? cs

/-- The further values of an array, and what follows its bracket. -/
def readItems? : Nat → List Char → Option (List Json × List Char)
  | 0, _ => none
  | fuel + 1, cs =>
    match skipBlanks cs with
    | ']' :: rest => some ([], rest)
    | ',' :: cs => do
      let (j, rest) ← readValue? fuel cs
      let (js, rest) ← readItems? fuel rest
      return (j :: js, rest)
    | _ => none

/-- The member at the front of a text, and what follows it. -/
def readMember? : Nat → List Char → Option ((String × Json) × List Char)
  | 0, _ => none
  | fuel + 1, cs =>
    match skipBlanks cs with
    | '\x22' :: cs => do
      let (k, rest) ← readText? none cs
      match skipBlanks rest with
      | ':' :: rest =>
        let (j, rest) ← readValue? fuel rest
        return ((String.ofList k, j), rest)
      | _ => none
    | _ => none

/-- The further members of an object, and what follows its brace. -/
def readMembers? : Nat → List Char → Option (List (String × Json) × List Char)
  | 0, _ => none
  | fuel + 1, cs =>
    match skipBlanks cs with
    | '\x7d' :: rest => some ([], rest)
    | ',' :: cs => do
      let (m, rest) ← readMember? fuel cs
      let (ms, rest) ← readMembers? fuel rest
      return (m :: ms, rest)
    | _ => none

end

/-- The value that a text holds. Every part of a value but a member takes a character, so twice the length is fuel
enough. -/
def read? (s : String) : Option Json :=
  let cs := s.toList
  match readValue? (2 * cs.length + 2) cs with
  | some (j, rest) => if skipBlanks rest = [] then some j else none
  | none => none

end Json

end InfixCalculator
