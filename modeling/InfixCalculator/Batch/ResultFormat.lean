import InfixCalculator.Format.Brace
import InfixCalculator.Format.Percent
import InfixCalculator.Settings

/-!
# Formats of results

* `ResultFormat.ofJson` reads the format that the settings name for results: a percent format, a brace format, or
  none, which asks for the shortest digits. A brace format is tried on the number one before anything else.
* `ResultFormat.write` writes a result in a format.
-/

namespace InfixCalculator.Batch

/-- A format of results. -/
inductive ResultFormat where
  | shortest
  | percent (format : List Char)
  | brace (format : List Char)
  deriving DecidableEq

namespace ResultFormat

/-- What can be wrong with a format of results. -/
inductive Fault where
  | notText
  /-- The brace format makes no sense. -/
  | senseless (given : String)
  | percent (e : PercentFormat.Fault)
  | brace (e : BraceFormat.Fault)
  deriving DecidableEq

/-- The message of a fault. -/
def Fault.message : Fault → String
  | notText => "float_format must be a string or callable"
  | senseless given => "Invalid new-style format string " ++ Text.quoted given
  | percent e => e.message
  | brace e => e.message

/-- What a fault is about. -/
def Fault.concern : Fault → Concern
  | notText | senseless _ => .form
  | percent e => e.concern
  | brace e => e.concern

/-- A result as the unnamed value of a percent format; it has no parts with names. -/
def percentSource (x : Float) : PercentFormat.Source where
  unnamed := some (.real x)
  named := fun _ => .error .noNames

/-- A result as the only value of a brace format. -/
def braceSource (x : Float) : BraceFormat.Source :=
  { numbered := [.real x] }

/-- A result in the format. -/
def write (x : Float) : ResultFormat → Except Fault (List Char)
  | shortest => .ok (Number.written x).toList
  | percent format => (PercentFormat.write (percentSource x) format).mapError .percent
  | brace format => (BraceFormat.write (braceSource x) format).mapError .brace

/-- The fault of a brace format that fails when it is tried. -/
def trialFault (given : String) (e : BraceFormat.Fault) : Fault :=
  match e.concern with
  | .form | .name | .place => .senseless given
  | _ => .brace e

/-- The format that a text stands for: a percent format if there is a percent sign in it. -/
def ofText (s : String) : Except Fault ResultFormat :=
  let cs := s.toList
  if cs.contains '%' then .ok (percent cs)
  else
    match BraceFormat.write (braceSource 1) cs with
    | .ok _ => .ok (brace cs)
    | .error e => .error (trialFault s e)

/-- The format that a value stands for. -/
def ofJson : Json → Except Fault ResultFormat
  | .null => .ok shortest
  | .text s => ofText s
  | _ => .error .notText

end ResultFormat

end InfixCalculator.Batch
