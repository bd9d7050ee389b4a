import InfixCalculator.Json.Basic

/-!
# JSON in writing

* `Json.print` writes a value in ASCII on one line: a comma or a colon is followed by a space, characters outside the
  printable ASCII range are escaped by their UTF-16 units, and the numbers that JSON lacks are `NaN` and `Infinity`.
-/

namespace InfixCalculator

namespace Json

/-- A UTF-16 unit as an escape. -/
def unitEscape (n : Nat) : List Char :=
  '\\' :: 'u' :: Text.hexadecimal 4 n

/-- A code point as one escape, or as those of two surrogates. -/
def codePointEscape (n : Nat) : List Char :=
  if n < 0x10000 then unitEscape n
  else unitEscape (0xD800 + (n - 0x10000) / 0x400) ++ unitEscape (0xDC00 + (n - 0x10000) % 0x400)

/-- A character of a text. -/
def printChar (c : Char) : List Char :=
  match c with
  | '\x22' => ['\\', '\x22']
  | '\\' => ['\\', '\\']
  | '\n' => ['\\', 'n']
  | '\r' => ['\\', 'r']
  | '\t' => ['\\', 't']
  | '\x08' => ['\\', 'b']
  | '\x0c' => ['\\', 'f']
  | c => if 0x20 ≤ c.toNat ∧ c.toNat ≤ 0x7E then [c] else codePointEscape c.toNat

/-- A text between double marks. -/
def printText (s : String) : List Char :=
  '\x22' :: (s.toList.flatMap printChar ++ ['\x22'])

/-- A double. -/
def printReal (x : Float) : List Char :=
  if x.isNaN then "NaN".toList
  else if x.isInf then (if Number.isNegative x then "-Infinity" else "Infinity").toList
  else (Number.written x).toList

mutual

/-- The characters of a value in writing. -/
def printChars : Json → List Char
  | null => "null".toList
  | bool b => (if b then "true" else "false").toList
  | integer n => integerText n
  | real x => printReal x
  | text s => printText s
  | array [] => ['[', ']']
  | array (j :: js) => '[' :: (printChars j ++ printItems js)
  | object [] => ['\x7b', '\x7d']
  | object ((k, j) :: ms) => '\x7b' :: (printText k ++ ':' :: ' ' :: (printChars j ++ printMembers ms))

/-- The further values of an array, with the bracket that closes it. -/
def printItems : List Json → List Char
  | [] => [']']
  | j :: js => ',' :: ' ' :: (printChars j ++ printItems js)

/-- The further members of an object, with the brace that closes it. -/
def printMembers : List (String × Json) → List Char
  | [] => ['\x7d']
  | (k, j) :: ms => ',' :: ' ' :: (printText k ++ ':' :: ' ' :: (printChars j ++ printMembers ms))

end

/-- The value in writing. -/
def print (j : Json) : String :=
  String.ofList j.printChars

end Json

end InfixCalculator
