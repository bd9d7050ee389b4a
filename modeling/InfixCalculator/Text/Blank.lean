/-!
# Blank characters

* `isBlank` holds of the characters that may surround a word or fill an empty line: the white space of Unicode and
  the four separators `U+001C` to `U+001F`. Zero-width characters are not blank.
* `trim` removes the blanks at both ends and touches nothing between them.
-/

namespace InfixCalculator.Text

/-- The code points of the blank characters, as closed ranges. -/
def blankRanges : List (Nat × Nat) :=
  [(0x09, 0x0D), (0x1C, 0x20), (0x85, 0x85), (0xA0, 0xA0), (0x1680, 0x1680), (0x2000, 0x200A), (0x2028, 0x2029),
    (0x202F, 0x202F), (0x205F, 0x205F), (0x3000, 0x3000)]

/-- A code point lies in one of the closed ranges. -/
def inRanges (ranges : List (Nat × Nat)) (n : Nat) : Bool :=
  ranges.any fun r => r.1 ≤ n && n ≤ r.2

/-- A character that may surround a word. -/
def isBlank (c : Char) : Bool :=
  inRanges blankRanges c.toNat

/-- A text without any character that is not blank. -/
def isBlankText (cs : List Char) : Bool :=
  cs.all isBlank

/-- The text without the blanks at its front. -/
def trimStart (cs : List Char) : List Char :=
  cs.dropWhile isBlank

/-- The text without the blanks at its end. -/
def trimEnd : List Char → List Char
  | [] => []
  | c :: cs =>
    match trimEnd cs with
    | [] => if isBlank c then [] else [c]
    | rest => c :: rest

/-- The text without the blanks at its two ends. -/
def trim (cs : List Char) : List Char :=
  trimEnd (trimStart cs)

/-! ## Small facts -/

theorem trimEnd_eq_nil_iff (cs : List Char) : trimEnd cs = [] ↔ isBlankText cs := by
  induction cs with
  | nil => simp [trimEnd, isBlankText]
  | cons c cs ih =>
    simp only [trimEnd]
    cases h : trimEnd cs with
    | nil =>
      have hb : isBlankText cs := ih.1 h
      by_cases hc : isBlank c <;> simp_all [isBlankText]
    | cons d ds => simp_all [isBlankText]

/-- A text trims to nothing exactly when it holds blanks only. -/
theorem trim_eq_nil_iff (cs : List Char) : trim cs = [] ↔ isBlankText cs := by
  rw [trim, trimEnd_eq_nil_iff, trimStart]
  induction cs with
  | nil => simp
  | cons c cs ih =>
    by_cases hc : isBlank c <;> simp_all [isBlankText, List.dropWhile]

end InfixCalculator.Text
