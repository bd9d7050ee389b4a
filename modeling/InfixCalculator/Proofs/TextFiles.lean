import InfixCalculator.Batch.Load
import InfixCalculator.Proofs.Encoding

/-!
# Files of lines

- `LineBreak`: the three line breaks; `Unbroken`: a text without any of them;
- `WrittenLines es cs`: the characters `cs` write the expressions `es` on lines of their own, with any line break after
  each line but perhaps the last, and with blank lines in any place;
- `filledLines_line`: a line and the break after it are one line, whatever follows;
- `load_text`: the expressions of a file of lines are exactly those that are written in it.
-/

namespace InfixCalculator.Text

/-- A line break. -/
inductive LineBreak where
  | lineFeed
  | carriageReturn
  | both

/-- The characters of a line break. -/
def LineBreak.text : LineBreak → List Char
  | lineFeed => ['\n']
  | carriageReturn => ['\r']
  | both => ['\r', '\n']

/-- The text has no line break in it. -/
def Unbroken (line : List Char) : Prop :=
  ∀ c ∈ line, c ≠ '\n' ∧ c ≠ '\r'

instance (line : List Char) : Decidable (Unbroken line) :=
  List.decidableBAll _ line

/-- The characters write the expressions, one on each line, with blank lines anywhere between and around them. -/
inductive WrittenLines : List String → List Char → Prop
  | nil : WrittenLines [] []
  /-- The last line, without a break after it. -/
  | last {e : String} (h : Unbroken e.toList) (hfilled : isBlankText e.toList = false) : WrittenLines [e] e.toList
  | lastBlank {b : List Char} (h : Unbroken b) (hblank : isBlankText b = true) : WrittenLines [] b
  | line {e : String} {es : List String} {cs : List Char} (h : Unbroken e.toList)
      (hfilled : isBlankText e.toList = false) (ending : LineBreak) (hrest : WrittenLines es cs) :
      WrittenLines (e :: es) (e.toList ++ (ending.text ++ cs))
  | blankLine {b : List Char} {es : List String} {cs : List Char} (h : Unbroken b)
      (hblank : isBlankText b = true) (ending : LineBreak) (hrest : WrittenLines es cs) :
      WrittenLines es (b ++ (ending.text ++ cs))

variable {l cs : List Char}

/-! ## Lines -/

theorem normalizeBreaks_append (h : Unbroken l) (cs : List Char) :
    normalizeBreaks (l ++ cs) = l ++ normalizeBreaks cs := by
  induction l with
  | nil => rfl
  | cons c l ih =>
    obtain ⟨hc, hl⟩ := List.forall_mem_cons.mp h
    rw [List.cons_append, normalizeBreaks, ih hl, if_neg hc.2, List.cons_append]
    exact fun _ hr => absurd hr hc.2

theorem lines_append (h : Unbroken l) (cs : List Char) : lines (l ++ '\n' :: cs) = l :: lines cs := by
  induction l with
  | nil => rw [List.nil_append, lines, if_pos rfl]
  | cons c l ih =>
    obtain ⟨hc, hl⟩ := List.forall_mem_cons.mp h
    rw [List.cons_append, lines, if_neg hc.1, ih hl]

theorem lines_unbroken (h : Unbroken l) : lines l = [l] := by
  induction l with
  | nil => rfl
  | cons c l ih =>
    obtain ⟨hc, hl⟩ := List.forall_mem_cons.mp h
    rw [lines, if_neg hc.1, ih hl]

/-- The line alone, unless it is blank. -/
def filled (l : List Char) : List (List Char) :=
  if isBlankText l then [] else [l]

theorem filter_cons_filled (l : List Char) (ls : List (List Char)) :
    (l :: ls).filter (fun line => !isBlankText line) = filled l ++ ls.filter (fun line => !isBlankText line) := by
  unfold filled
  cases h : isBlankText l <;> simp [h]

theorem filledLines_unbroken (h : Unbroken l) : filledLines l = filled l := by
  have hnorm := normalizeBreaks_append h []
  rw [List.append_nil, normalizeBreaks, List.append_nil] at hnorm
  rw [filledLines, hnorm, lines_unbroken h, filter_cons_filled, List.filter_nil, List.append_nil]

theorem filledLines_lineFeed (h : Unbroken l) (cs : List Char) :
    filledLines (l ++ '\n' :: cs) = filled l ++ filledLines cs := by
  have hfeed : normalizeBreaks ('\n' :: cs) = '\n' :: normalizeBreaks cs := by
    cases cs <;> rfl
  rw [filledLines, normalizeBreaks_append h, hfeed, lines_append h, filter_cons_filled, filledLines]

/-- A line with any line break after it. -/
theorem filledLines_line (h : Unbroken l) (ending : LineBreak) (cs : List Char) :
    filledLines (l ++ (ending.text ++ cs)) = filled l ++ filledLines cs := by
  have hsame : ∀ {cs cs' : List Char}, normalizeBreaks cs = normalizeBreaks cs' →
      filledLines (l ++ cs) = filledLines (l ++ cs') := by
    intro cs cs' heq
    rw [filledLines, filledLines, normalizeBreaks_append h, normalizeBreaks_append h, heq]
  cases ending with
  | lineFeed => exact filledLines_lineFeed h cs
  | both =>
    rw [← filledLines_lineFeed h cs]
    exact hsame (by cases cs <;> rfl)
  | carriageReturn =>
    -- a line feed next belongs to the same break, and leaves an empty line out
    by_cases hfeed : ∃ cs', cs = '\n' :: cs'
    · obtain ⟨cs', rfl⟩ := hfeed
      have hrest := filledLines_lineFeed (l := []) (fun _ hc => absurd hc List.not_mem_nil) cs'
      rw [List.nil_append] at hrest
      rw [hrest, show filled [] = [] from rfl, List.nil_append, ← filledLines_lineFeed h cs']
      exact hsame (by cases cs' <;> rfl)
    · rw [← filledLines_lineFeed h cs]
      refine hsame ?_
      show normalizeBreaks ('\r' :: cs) = _
      rw [normalizeBreaks, if_pos rfl]
      · cases cs <;> rfl
      · exact fun cs' _ heq => hfeed ⟨cs', heq⟩

/-- The lines that are not blank are the expressions, unchanged and in order. -/
theorem ofLines_written {es : List String} (h : WrittenLines es cs) : Batch.ofLines cs = es := by
  unfold Batch.ofLines
  induction h with
  | nil => rfl
  | last h hfilled => rw [filledLines_unbroken h, filled, hfilled]; simp
  | lastBlank h hblank => rw [filledLines_unbroken h, filled, hblank]; rfl
  | line h hfilled ending _ ih =>
    rw [filledLines_line h, filled, hfilled, List.map_append, ih]
    simp
  | blankLine h hblank ending _ ih =>
    rw [filledLines_line h, filled, hblank, List.map_append, ih]
    rfl

end InfixCalculator.Text

namespace InfixCalculator

open Text

/-! ## Files -/

/-- A file whose path does not name a table has exactly the expressions that are written on its lines, whatever the
line breaks and the blank lines between them. -/
theorem load_text {settings : Settings} {files : Files} {path : String} {column : Json} {es : List String}
    {cs : List Char} (h : WrittenLines es cs) (hpath : Batch.isTable path = false)
    (hread : files.read path = .ok (Utf8.encode cs)) : Batch.load settings files path column = .ok es := by
  rw [Batch.load, hread]
  simp only [hpath]
  show Batch.ofText (Utf8.encode cs) = .ok es
  rw [Batch.ofText, Utf8.decode_encode]
  exact congrArg Except.ok (ofLines_written h)

/-- A file with each of the line breaks, blank lines, and blanks that break no line. -/
def mixedLines : Files where
  read _ := .ok (Utf8.encode "\uFEFF1 + 2\r\n\n\t \r3\u2028- 4 \r\x0c\n\u00A0é".toList)
  refusal _ := none

theorem load_mixedLines :
    WrittenLines ["\uFEFF1 + 2", "3\u2028- 4 ", "\u00A0é"]
        "\uFEFF1 + 2\r\n\n\t \r3\u2028- 4 \r\x0c\n\u00A0é".toList ∧
      Batch.isTable "sums.txt" = false ∧
      Batch.load Settings.standard mixedLines "sums.txt" .null = .ok ["\uFEFF1 + 2", "3\u2028- 4 ", "\u00A0é"] := by
  have h : WrittenLines ["\uFEFF1 + 2", "3\u2028- 4 ", "\u00A0é"]
      "\uFEFF1 + 2\r\n\n\t \r3\u2028- 4 \r\x0c\n\u00A0é".toList :=
    .line (by decide +kernel) (by decide +kernel) .both <| .blankLine (b := []) (by decide) (by decide) .lineFeed <|
      .blankLine (b := ['\t', ' ']) (by decide) (by decide) .carriageReturn <|
        .line (by decide +kernel) (by decide +kernel) .carriageReturn <|
          .blankLine (b := ['\x0c']) (by decide) (by decide) .lineFeed <| .last (by decide +kernel) (by decide +kernel)
  have hpath : Batch.isTable "sums.txt" = false := by decide +kernel
  exact ⟨h, hpath, load_text h hpath rfl⟩

end InfixCalculator
