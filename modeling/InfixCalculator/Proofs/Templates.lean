import InfixCalculator.Calculation

/-!
# Templates that can be filled

A `Template.Part` is a character or the field for the expression. Every list of parts is spelled as a template
(`Template.spelled`), with the braces among its characters doubled, and the template is read back as the same parts
(`Template.read_spelled`). So it can be filled, with the characters as they are and the expression in the place of the
fields (`Template.fillText_spelled`).

- `Settings.Fills settings`: the template of the settings is spelled from parts. With such settings every calculation can
  be shown (`Calculation.exists_display`, `Calculation.exists_line`, `Calculation.exists_dump`);
- `Settings.standard_fills`: the standard settings are so.
-/

namespace InfixCalculator

namespace Template

open BraceFormat

/-- A part of a template in which nothing is wrong. -/
inductive Part where
  | char (c : Char)
  | expression

namespace Part

/-- The part in a template. A brace is doubled. -/
def spelled : Part → List Char
  | char c => if c = opening ∨ c = closing then [c, c] else [c]
  | expression => requiredField

/-- The part when the template is filled. -/
def filled (e : List Char) : Part → List Char
  | char c => [c]
  | expression => e

/-- The piece that the part is read as. -/
def piece : Part → Piece
  | char c => .char c
  | expression => .field fieldName none []

theorem readFrom_spelled (part : Part) (rest : List Char) :
    readFrom .outside (part.spelled ++ rest) = part.piece :: readFrom .outside rest := by
  cases part with
  | expression => rfl
  | char c =>
    by_cases ho : c = opening
    · subst ho
      rfl
    by_cases hc : c = closing
    · subst hc
      rfl
    simp [spelled, piece, readFrom, step, ho, hc]

end Part

/-- The template that parts are spelled as. -/
def spelled (parts : List Part) : List Char :=
  parts.flatMap Part.spelled

/-- The text that parts make when they are filled. -/
def filled (e : List Char) (parts : List Part) : List Char :=
  parts.flatMap (Part.filled e)

/-- **A spelled template is read as its parts.** -/
theorem read_spelled (parts : List Part) : read (spelled parts) = parts.map Part.piece := by
  induction parts with
  | nil => rfl
  | cons part parts ih =>
    show readFrom .outside (part.spelled ++ spelled parts) = _
    rw [part.readFrom_spelled, List.map_cons]
    exact congrArg (part.piece :: ·) ih

/-- The expression is found under its name, and no field is numbered by that. -/
theorem find_fieldName (e : String) (numbering : Numbering) :
    (source e).find numbering fieldName = .ok (.text e.toList, numbering) :=
  rfl

variable {nested : Numbering → List Char → Except BraceFormat.Fault (List Char × Numbering)} {e : String}
  {numbering : Numbering}

theorem writePieces_char (c : Char) (rest : List Piece) :
    writePieces nested (source e) numbering (.char c :: rest) =
      (writePieces nested (source e) numbering rest).map fun more => (c :: more.1, more.2) := by
  rw [writePieces]
  cases writePieces nested (source e) numbering rest <;> rfl

/-- The field for the expression asks for no other form of it and for no layout, so that the expression is written as
it is. -/
theorem writePieces_fieldName (rest : List Piece) :
    writePieces nested (source e) numbering (.field fieldName none [] :: rest) =
      (writePieces nested (source e) numbering rest).map fun more => (e.toList ++ more.1, more.2) := by
  have hspec : expandSpec nested numbering [] = .ok ([], numbering) := rfl
  have hlay : lay [] (.text e.toList) = .ok e.toList := rfl
  simp only [writePieces, find_fieldName, convert, bind, Except.bind, hspec, hlay]
  cases writePieces nested (source e) numbering rest <;> rfl

theorem writePieces_parts (nested : Numbering → List Char → Except BraceFormat.Fault (List Char × Numbering))
    (e : String) (numbering : Numbering) (parts : List Part) :
    writePieces nested (source e) numbering (parts.map Part.piece) = .ok (filled e.toList parts, numbering) := by
  induction parts with
  | nil => rfl
  | cons part parts ih =>
    cases part with
    | char c =>
      rw [List.map_cons, Part.piece, writePieces_char, ih]
      rfl
    | expression =>
      rw [List.map_cons, Part.piece, writePieces_fieldName, ih]
      rfl

/-- A template that is read as parts is filled part by part. -/
theorem fillText_of_read {template : String} {parts : List Part}
    (h : read template.toList = parts.map Part.piece) (e : String) :
    fillText template e = .ok (String.ofList (filled e.toList parts)) := by
  rw [fillText, write, greatestDepth, writeNested, h, writePieces_parts]
  rfl

/-- **A spelled template is filled part by part.** -/
theorem fillText_spelled (e : String) (parts : List Part) :
    fillText (String.ofList (spelled parts)) e = .ok (String.ofList (filled e.toList parts)) :=
  fillText_of_read (by rw [String.toList_ofList, read_spelled]) e

end Template

/-- The template of the settings is spelled from parts. -/
def Settings.Fills (settings : Settings) : Prop :=
  ∃ parts, settings.errorTemplate = .text (String.ofList (Template.spelled parts))

theorem Settings.standard_fills : standard.Fills := by
  refine ⟨"Error with parsing your expression '".toList.map .char ++ .expression ::
    "'. Please enter valid numbers, operators, or variables and try again.".toList.map .char, ?_⟩
  exact congrArg Json.text (by decide +kernel)

namespace Calculation

variable {settings : Settings} {c : Calculation} {text : String}

theorem line_of_display (h : c.display settings = .ok text) :
    c.line settings = .ok (text ++ " = " ++ Number.written c.result) := by
  rw [line, h]
  rfl

theorem exists_dump_of_display (h : c.display settings = .ok text) : ∃ dump, c.dump settings = .ok dump :=
  ⟨_, by rw [dump, toJson, h]; rfl⟩

theorem exists_display (h : settings.Fills) (c : Calculation) : ∃ text, c.display settings = .ok text := by
  obtain ⟨parts, h⟩ := h
  rw [display]
  split
  · exact ⟨_, rfl⟩
  · exact ⟨_, by rw [h, Template.fill, Template.fillText_spelled]; rfl⟩

theorem exists_line (h : settings.Fills) (c : Calculation) : ∃ text, c.line settings = .ok text := by
  obtain ⟨text, htext⟩ := exists_display h c
  exact ⟨_, line_of_display htext⟩

theorem exists_dump (h : settings.Fills) (c : Calculation) : ∃ text, c.dump settings = .ok text := by
  obtain ⟨text, htext⟩ := exists_display h c
  exact exists_dump_of_display htext

end Calculation

end InfixCalculator
