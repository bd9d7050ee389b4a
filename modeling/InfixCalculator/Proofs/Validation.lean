import InfixCalculator.Proofs.Scanning
import InfixCalculator.Proofs.Stages
import InfixCalculator.Proofs.TemplateParts
import Mathlib.Data.List.Basic

/-!
# What the validation of a template is worth

The validation of the settings looks for the field for the expression anywhere in the template, and no further
(`Settings.validate_withTemplate`).

- `Template.Sound`: every brace of the template is doubled or belongs to a field for the expression, and there is such a
  field, as in every template that is spelled from parts with a field among them (`Template.sound_spelled`);
- `Template.AsIs`: the fields do not ask for a part, another form or a layout of the expression;
- `Template.spells_or_fault`: a template that asks for the expression as it is spells parts, or it cannot be filled;
- `Calculation.shown_withTemplate`: with a sound template every calculation with a replaced word is shown, and its
  expression with it; with any other that asks for the expression as it is, either none is, or all are shown alike;
- `Calculation.not_shown_validated`: templates of both kinds pass the validation.
-/

namespace InfixCalculator

namespace Template

open BraceFormat

/-- Every brace of the template is doubled or belongs to a field for the expression, and there is such a field. -/
def Sound (template : String) : Prop :=
  ∃ parts, Part.expression ∈ parts ∧ Spells template.toList parts

/-- What the name of a field begins with, up to the first part that it asks for. -/
def firstName (name : List Char) : List Char :=
  name.takeWhile fun c => !beginsPart c

/-- No field of the template asks for a part of the expression, for another form of it, or for a layout. -/
def AsIs (template : String) : Prop :=
  ∀ name conversion spec, .field name conversion spec ∈ read template.toList → firstName name = fieldName →
    name = fieldName ∧ conversion = none ∧ spec = []

variable {template : String} {pieces : List Piece}

/-- What is spelled from parts with a field among them is sound. -/
theorem sound_spelled {parts : List Part} (h : .expression ∈ parts) : Sound (String.ofList (spelled parts)) :=
  ⟨parts, h, String.toList_ofList ▸ read_iff_spells.mp (read_spelled parts)⟩

/-! ## Filling -/

/-- A field that names something other than the expression cannot be filled, whatever the expression is. -/
theorem find_other {name : List Char} (h : firstName name ≠ fieldName) :
    ∃ fault, ∀ e, (source e).find .undecided name = .error fault := by
  have hlookup : ∀ e, (source e).atName (firstName name) = .error (.unknownName (String.ofList (firstName name))) := by
    intro e
    simp [Source.atName, source, List.lookup_cons, beq_eq_false_iff_ne.mpr h]
  simp only [firstName] at hlookup
  cases hnumber : number (name.takeWhile fun c => !beginsPart c) with
  | error fault => exact ⟨fault, fun e => by simp only [Source.find, hnumber]; rfl⟩
  | ok n =>
    cases hempty : (name.takeWhile fun c => !beginsPart c).isEmpty with
    | true => exact ⟨.unknownNumber 0, fun e => by simp only [Source.find, hnumber, hempty]; rfl⟩
    | false =>
      cases n with
      | some n => exact ⟨.unknownNumber n, fun e => by simp only [Source.find, hnumber, hempty]; rfl⟩
      | none => exact ⟨_, fun e => by simp only [Source.find, hnumber, hempty, hlookup e]; rfl⟩

/-- Where the expression is asked for as it is, the pieces are parts, or there is a fault in them that does not depend on
the expression. -/
theorem parts_or_fault (h : ∀ name conversion spec, .field name conversion spec ∈ pieces →
    firstName name = fieldName → name = fieldName ∧ conversion = none ∧ spec = []) :
    (∃ parts : List Part, pieces = parts.map Part.piece) ∨
      ∃ fault, ∀ nested e, writePieces nested (source e) .undecided pieces = .error fault := by
  induction pieces with
  | nil => exact Or.inl ⟨[], rfl⟩
  | cons piece pieces ih =>
    have hrest := ih fun name conversion spec hm => h name conversion spec (List.mem_cons_of_mem _ hm)
    cases piece with
    | broken e => exact Or.inr ⟨e, fun _ _ => rfl⟩
    | char c =>
      rcases hrest with ⟨parts, rfl⟩ | ⟨fault, hfault⟩
      · exact Or.inl ⟨.char c :: parts, rfl⟩
      · refine Or.inr ⟨fault, fun nested e => ?_⟩
        rw [writePieces_char, hfault]
        rfl
    | field name conversion spec =>
      by_cases hname : firstName name = fieldName
      · obtain ⟨rfl, rfl, rfl⟩ := h name conversion spec List.mem_cons_self hname
        rcases hrest with ⟨parts, rfl⟩ | ⟨fault, hfault⟩
        · exact Or.inl ⟨.expression :: parts, rfl⟩
        · refine Or.inr ⟨fault, fun nested e => ?_⟩
          rw [writePieces_fieldName, hfault]
          rfl
      · obtain ⟨fault, hfault⟩ := find_other hname
        refine Or.inr ⟨fault, fun nested e => ?_⟩
        rw [writePieces, hfault]
        rfl

/-- A template that asks for the expression as it is spells parts, or it cannot be filled. -/
theorem spells_or_fault (h : AsIs template) :
    (∃ parts, Spells template.toList parts) ∨ ∃ fault, ∀ e, fillText template e = .error fault := by
  rcases parts_or_fault h with ⟨parts, hparts⟩ | ⟨fault, hfault⟩
  · exact Or.inl ⟨parts, read_iff_spells.mp hparts⟩
  · refine Or.inr ⟨fault, fun e => ?_⟩
    rw [fillText, write, greatestDepth, writeNested, hfault]
    rfl

/-- The expression is in what is filled in for a field. -/
theorem infix_filled {parts : List Part} (h : .expression ∈ parts) (e : List Char) : e <:+: filled e parts := by
  obtain ⟨before, after, rfl⟩ := List.append_of_mem h
  exact ⟨filled e before, filled e after, by simp [filled, Part.filled]⟩

/-- Without a field the expression has no part in what is filled in. -/
theorem filled_of_not_mem {parts : List Part} (h : .expression ∉ parts) (e e' : List Char) :
    filled e parts = filled e' parts := by
  refine List.flatMap_congr fun part hm => ?_
  cases part with
  | char c => rfl
  | expression => exact absurd hm h

theorem occursIn_iff {part cs : List Char} : occursIn part cs = true ↔ part <:+: cs := by
  induction cs with
  | nil => simp [occursIn]
  | cons c cs ih => simp [occursIn, ih, List.infix_cons_iff]

end Template

/-! ## Validation -/

/-- The standard settings with another template. -/
def Settings.withTemplate (template : String) : Settings :=
  standard.put .parser "error_template" (.text template)

/-- The settings make sense as soon as the field for the expression is found in the template. -/
theorem Settings.validate_withTemplate (template : String) :
    (withTemplate template).validate = .ok () ↔ Template.requiredField <:+: template.toList := by
  have hparts : (withTemplate template).validate = (withTemplate template).validateTemplate := by
    cases hv : (withTemplate template).validateTemplate with
    | error fault => simp only [validate, hv]; rfl
    | ok u => simp only [validate, hv]; rfl
  rw [hparts, ← Template.occursIn_iff]
  have hholds : holdsRequiredField (withTemplate template).errorTemplate =
      .ok (Template.occursIn Template.requiredField template.toList) := rfl
  rw [validateTemplate, hholds]
  cases Template.occursIn Template.requiredField template.toList with
  | false => exact iff_of_false (fun h => by cases h) Bool.false_ne_true
  | true => exact iff_of_true rfl rfl

/-! ## Calculations with replaced words -/

namespace Calculation

open Template

variable {settings : Settings} {template : String} {c : Calculation}

/-- The calculation of an expression in which words were replaced. -/
def Recovered (c : Calculation) : Prop :=
  c.diagnostics ≠ [] ∧ ∃ options, ofExpression options c.expression = .ok c

/-- The calculation is shown in every way, and its expression is in the display. -/
structure Shown (settings : Settings) (c : Calculation) : Prop where
  display : ∃ text, c.display settings = .ok text ∧ c.expression.toList <:+: text.toList
  line : ∃ text, c.line settings = .ok text
  dump : ∃ text, c.dump settings = .ok text

/-- The calculation is shown in no way. -/
structure Unshown (settings : Settings) (c : Calculation) (fault : Template.Fault) : Prop where
  display : c.display settings = .error fault
  line : c.line settings = .error fault
  dump : c.dump settings = .error fault

theorem display_withTemplate (h : c.diagnostics ≠ []) (template : String) :
    c.display (.withTemplate template) = (fillText template c.expression).mapError .format := by
  have hok : c.ok = false := by simpa [ok] using h
  rw [display, hok]
  rfl

theorem shown_of_display {text : String} (h : c.display settings = .ok text)
    (hin : c.expression.toList <:+: text.toList) : Shown settings c where
  display := ⟨text, h, hin⟩
  line := ⟨_, line_of_display h⟩
  dump := exists_dump_of_display h

theorem unshown_of_display {fault : Template.Fault} (h : c.display settings = .error fault) :
    Unshown settings c fault where
  display := h
  line := by rw [Calculation.line, h]; rfl
  dump := by rw [Calculation.dump, toJson, h]; rfl

theorem Unshown.not_shown {fault : Template.Fault} (h : Unshown settings c fault) : ¬Shown settings c := by
  rintro ⟨⟨text, htext, -⟩, -, -⟩
  cases h.display.symm.trans htext

/-- There are calculations with a replaced word for expressions of any length: a word and spaces behind it. -/
theorem exists_recovered (n : Nat) : ∃ c, Recovered c ∧ n < c.expression.toList.length := by
  obtain ⟨c, hc, hd⟩ : ∃ c, ofExpression {} "x" = .ok c ∧ c.diagnostics = [⟨"x", some 0⟩] := by
    apply exists_ok_of_map
    decide +kernel
  have htokens : tokenize (String.ofList ('x' :: List.replicate n ' ')) = tokenize "x" := by
    have hspaces : ∀ c ∈ (List.replicate n ' ').head?, isDelimiter c = true := by
      intro c hc
      rw [List.eq_of_mem_replicate (List.mem_of_head? hc)]
      decide
    have hword := scan_word (List.cons_ne_nil 'x' []) (List.forall_mem_singleton.mpr (by decide)) hspaces 0
    have hrest := scan_spaces 1 n []
    rw [List.append_nil] at hrest
    rw [tokenize, String.toList_ofList]
    exact hword.trans (congrArg (classify ['x'] (some 0) :: ·) hrest)
  rw [ofExpression_eq_ofTokens] at hc
  obtain ⟨hb, -, hts, hstages⟩ := ofTokens_eq_ok_iff.mp hc
  refine ⟨{ c with expression := String.ofList ('x' :: List.replicate n ' ') }, ⟨?_, {}, ?_⟩, by simp⟩
  · exact hd ▸ List.cons_ne_nil _ _
  · rw [ofExpression_eq_ofTokens, htokens]
    exact ofTokens_eq_ok_iff.mpr ⟨hb, rfl, hts, hstages⟩

/-- The settings with a template make sense as soon as the field for the expression is found in it. With a sound template
every calculation with a replaced word is shown, and its expression with it. With any other that asks for the
expression as it is, either none is shown, or all are shown alike, so that not all are shown with their expressions. -/
theorem shown_withTemplate (template : String) :
    ((Settings.withTemplate template).validate = .ok () ↔ requiredField <:+: template.toList) ∧
      (Sound template → ∀ c, Recovered c → Shown (.withTemplate template) c) ∧
      (AsIs template → ¬Sound template →
        ((∃ fault, ∀ c, Recovered c → Unshown (.withTemplate template) c fault) ∨
          ∃ text, ∀ c, Recovered c → c.display (.withTemplate template) = .ok text) ∧
        ∃ c, Recovered c ∧ ¬Shown (.withTemplate template) c) := by
  refine ⟨Settings.validate_withTemplate template, ?_, ?_⟩
  · rintro ⟨parts, hfield, hspells⟩ c ⟨hd, -⟩
    have hdisplay := display_withTemplate hd template
    rw [fillText_of_read (read_iff_spells.mpr hspells)] at hdisplay
    refine shown_of_display hdisplay ?_
    rw [String.toList_ofList]
    exact infix_filled hfield _
  · intro has hsound
    rcases spells_or_fault has with ⟨parts, hspells⟩ | ⟨fault, hfault⟩
    · have hfield : .expression ∉ parts := fun h => hsound ⟨parts, h, hspells⟩
      have hdisplay : ∀ c, Recovered c →
          c.display (.withTemplate template) = .ok (String.ofList (filled [] parts)) := by
        intro c hc
        rw [display_withTemplate hc.1, fillText_of_read (read_iff_spells.mpr hspells), filled_of_not_mem hfield _ []]
        rfl
      refine ⟨Or.inr ⟨_, hdisplay⟩, ?_⟩
      -- an expression longer than the text that is always shown is not in it
      obtain ⟨c, hc, hlong⟩ := exists_recovered (filled [] parts).length
      refine ⟨c, hc, ?_⟩
      rintro ⟨⟨text, htext, hin⟩, -, -⟩
      obtain rfl := Except.ok.inj ((hdisplay c hc).symm.trans htext)
      have hle := hin.length_le
      rw [String.toList_ofList] at hle
      omega
    · have hunshown : ∀ c, Recovered c → Unshown (.withTemplate template) c (.format fault) := by
        intro c hc
        apply unshown_of_display
        rw [display_withTemplate hc.1, hfault]
        rfl
      obtain ⟨c, hc, -⟩ := exists_recovered 0
      exact ⟨Or.inl ⟨_, hunshown⟩, c, hc, (hunshown c hc).not_shown⟩

/-- A field for the expression, and an opening brace by itself. -/
def loneBrace : String := "\x7bexpression\x7d \x7b"

/-- The field for the expression with its braces doubled. -/
def doubledBraces : String := "\x7b\x7bexpression\x7d\x7d"

/-- Two templates that pass the validation. With the one no calculation with a replaced word is shown, with the other the
name of the field stands where the expression should. -/
theorem not_shown_validated :
    ((Settings.withTemplate loneBrace).validate = .ok () ∧
      ∃ c, ofExpression ((Settings.withTemplate loneBrace).options none none) "1 + x" = .ok c ∧
        c.diagnostics = [⟨"x", some 4⟩] ∧ Unshown (.withTemplate loneBrace) c (.format .singleOpening)) ∧
    (Settings.withTemplate doubledBraces).validate = .ok () ∧
      ∃ c, ofExpression ((Settings.withTemplate doubledBraces).options none none) "1 + x" = .ok c ∧
        c.diagnostics = [⟨"x", some 4⟩] ∧
        c.display (.withTemplate doubledBraces) = .ok "\x7bexpression\x7d" ∧ ¬Shown (.withTemplate doubledBraces) c := by
  have hcalculated : ∀ template, ∃ c, ofExpression ((Settings.withTemplate template).options none none) "1 + x" = .ok c ∧
      (c.expression, c.diagnostics) = ("1 + x", [⟨"x", some 4⟩]) := by
    intro template
    apply exists_ok_of_map fun c : Calculation => (c.expression, c.diagnostics)
    show (ofExpression {} "1 + x").map _ = _
    decide +kernel
  refine ⟨⟨by decide +kernel, ?_⟩, by decide +kernel, ?_⟩
  · obtain ⟨c, hc, hread⟩ := hcalculated loneBrace
    obtain ⟨hexpression, hd⟩ := Prod.mk.inj hread
    refine ⟨c, hc, hd, unshown_of_display ?_⟩
    rw [display_withTemplate (hd ▸ List.cons_ne_nil _ _), hexpression]
    decide +kernel
  · obtain ⟨c, hc, hread⟩ := hcalculated doubledBraces
    obtain ⟨hexpression, hd⟩ := Prod.mk.inj hread
    have hdisplay : c.display (.withTemplate doubledBraces) = .ok "\x7bexpression\x7d" := by
      rw [display_withTemplate (hd ▸ List.cons_ne_nil _ _), hexpression]
      decide +kernel
    refine ⟨c, hc, hd, hdisplay, ?_⟩
    rintro ⟨⟨text, htext, hin⟩, -, -⟩
    obtain rfl := Except.ok.inj (hdisplay.symm.trans htext)
    rw [hexpression] at hin
    revert hin
    decide +kernel

end Calculation

end InfixCalculator
