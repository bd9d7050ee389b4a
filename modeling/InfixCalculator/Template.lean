import InfixCalculator.Format.Brace
import InfixCalculator.Json.Basic

/-!
# Message templates

A template is a brace format in which the expression is the only value, under its name.

* `Template.fill` puts the expression in the place of its fields, or says what is wrong with the template.
* `Template.mentionsExpression` holds of the templates with the field for the expression in them.
-/

namespace InfixCalculator

namespace Template

/-- What can be wrong with a template. -/
inductive Fault where
  /-- The template is no text but a value of another kind. -/
  | notText (kind : String)
  | format (e : BraceFormat.Fault)
  deriving DecidableEq

/-- The message of a fault. -/
def Fault.message : Fault → String
  | notText kind => "'" ++ kind ++ "' object has no attribute 'format'"
  | format e => e.message

/-- What a fault is about. -/
def Fault.concern : Fault → Concern
  | notText _ => .property
  | format e => e.concern

/-- The name of the field that has a value. -/
def fieldName : List Char := "expression".toList

/-- The field that is to be found in every template. -/
def requiredField : List Char := BraceFormat.opening :: (fieldName ++ [BraceFormat.closing])

/-- The values of a template. -/
def source (expression : String) : BraceFormat.Source :=
  { named := [(fieldName, .text expression.toList)] }

/-- The template with the expression in its fields. -/
def fillText (template expression : String) : Except BraceFormat.Fault String :=
  (BraceFormat.write (source expression) template.toList).map String.ofList

/-- The template that a value is, with the expression in its fields. -/
def fill (template : Json) (expression : String) : Except Fault String :=
  match template with
  | .text s => (fillText s expression).mapError .format
  | j => .error (.notText j.kindName)

/-- The text occurs in another one. -/
def occursIn (part : List Char) : List Char → Bool
  | [] => part.isEmpty
  | c :: cs => part.isPrefixOf (c :: cs) || occursIn part cs

/-- The template has the field for the expression in it, braces around it apart. -/
def mentionsExpression (template : String) : Bool :=
  occursIn requiredField template.toList

end Template

end InfixCalculator
