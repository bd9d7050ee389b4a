import InfixCalculator.Text.Hexadecimal
import InfixCalculator.Text.Printable

/-!
# Quoted texts

* `quoted` writes a text between quote marks, on one line, so that it can be read back: the backslash, the mark, the
  line ends and the tab are escaped by a letter, other unprintable characters by their code point.
* `inAscii` escapes all that is outside ASCII in a text.
* `quotedList` writes a list of texts in square brackets.
-/

namespace InfixCalculator.Text

/-- The single quote mark. -/
def singleMark : Char := '\x27'

/-- The double quote mark. -/
def doubleMark : Char := '\x22'

/-- The mark around a text: single, unless the text holds single marks and no double one. -/
def quoteMark (cs : List Char) : Char :=
  if cs.contains singleMark && !cs.contains doubleMark then doubleMark else singleMark

/-- A code point as an escape of two, four or eight hexadecimal digits. -/
def codePointEscape (n : Nat) : List Char :=
  if n < 0x100 then '\\' :: 'x' :: hexadecimal 2 n
  else if n < 0x10000 then '\\' :: 'u' :: hexadecimal 4 n
  else '\\' :: 'U' :: hexadecimal 8 n

/-- A character of a quoted text. -/
def quotedChar (mark c : Char) : List Char :=
  if c = mark ∨ c = '\\' then ['\\', c]
  else if c = '\n' then ['\\', 'n']
  else if c = '\r' then ['\\', 'r']
  else if c = '\t' then ['\\', 't']
  else if isPrintable c then [c]
  else codePointEscape c.toNat

/-- The text between quote marks, with escapes. -/
def quoted (s : String) : String :=
  let cs := s.toList
  let mark := quoteMark cs
  String.ofList (mark :: (cs.flatMap (quotedChar mark) ++ [mark]))

/-- The characters with those outside ASCII as escapes. -/
def inAscii (cs : List Char) : List Char :=
  cs.flatMap fun c => if c.toNat < 0x80 then [c] else codePointEscape c.toNat

/-- The texts, quoted, in square brackets. -/
def quotedList (texts : List String) : String :=
  "[" ++ ", ".intercalate (texts.map quoted) ++ "]"

end InfixCalculator.Text
