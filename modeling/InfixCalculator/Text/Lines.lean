import InfixCalculator.Text.Blank

/-!
# Lines

* `normalizeBreaks` writes each of the three line breaks as a line feed.
* `lines` cuts a text at its line feeds, and `filledLines` keeps the lines that hold more than blanks, unchanged.
-/

namespace InfixCalculator.Text

/-- The text with a line feed for each line break: a carriage return, with the line feed after it if there is one. -/
def normalizeBreaks : List Char → List Char
  | [] => []
  | '\r' :: '\n' :: cs => '\n' :: normalizeBreaks cs
  | c :: cs => (if c = '\r' then '\n' else c) :: normalizeBreaks cs

/-- The lines of a text; what follows the last line feed is a line too. -/
def lines : List Char → List (List Char)
  | [] => [[]]
  | c :: cs =>
    if c = '\n' then [] :: lines cs
    else
      match lines cs with
      | [] => [[c]]
      | first :: rest => (c :: first) :: rest

/-- The lines with more than blanks on them. -/
def filledLines (text : List Char) : List (List Char) :=
  (lines (normalizeBreaks text)).filter fun line => !isBlankText line

end InfixCalculator.Text
