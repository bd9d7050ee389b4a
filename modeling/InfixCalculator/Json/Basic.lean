import InfixCalculator.Text.Quoted
import InfixCalculator.Number.Written

/-!
# JSON values

* `Json` keeps whole numbers and doubles apart, and the members of an object in their order.
* `kindName` names the kind of a value in messages.
* `truthy` is the truth value of a JSON value: null, false, zero and the empty values count as false.
* `shown` is a value in a message, with its texts quoted; `plain` is the same but for a text, which stands for itself.
-/

namespace InfixCalculator

/-- A JSON value. -/
inductive Json where
  | null
  | bool (b : Bool)
  | integer (n : Int)
  | real (x : Float)
  | text (s : String)
  | array (items : List Json)
  | object (members : List (String × Json))

namespace Json

/-- The member of an object. -/
def get? (key : String) : Json → Option Json
  | object members => members.lookup key
  | _ => none

/-- The text that a value is. -/
def text? : Json → Option String
  | text s => some s
  | _ => none

/-- A text, or null if there is none. -/
def ofText? : Option String → Json
  | some s => text s
  | none => null

/-- A number that is not negative, or null if there is none. -/
def ofNat? : Option Nat → Json
  | some n => integer n
  | none => null

/-- The name of the value's kind. -/
def kindName : Json → String
  | null => "NoneType"
  | bool _ => "bool"
  | integer _ => "int"
  | real _ => "float"
  | text _ => "str"
  | array _ => "list"
  | object _ => "dict"

/-- The value counts as true. -/
def truthy : Json → Bool
  | null => false
  | bool b => b
  | integer n => n != 0
  | real x => !(x == 0)
  | text s => s != ""
  | array items => !items.isEmpty
  | object members => !members.isEmpty

/-- The text of a whole number. -/
def integerText (n : Int) : List Char :=
  if n < 0 then '-' :: Number.digitsOf n.natAbs else Number.digitsOf n.natAbs

mutual

/-- The value in a message, with its texts quoted. -/
def shown : Json → String
  | null => "None"
  | bool b => if b then "True" else "False"
  | integer n => String.ofList (integerText n)
  | real x => Number.written x
  | text s => Text.quoted s
  | array items => "[" ++ ", ".intercalate (shownItems items) ++ "]"
  | object members => "\x7b" ++ ", ".intercalate (shownMembers members) ++ "\x7d"

/-- The values of an array in a message. -/
def shownItems : List Json → List String
  | [] => []
  | j :: js => shown j :: shownItems js

/-- The members of an object in a message. -/
def shownMembers : List (String × Json) → List String
  | [] => []
  | (k, j) :: ms => (Text.quoted k ++ ": " ++ shown j) :: shownMembers ms

end

/-- The value in a message; a text stands for itself. -/
def plain : Json → String
  | text s => s
  | j => j.shown

end Json

end InfixCalculator
