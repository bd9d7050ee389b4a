/-!
# What faults of formats are about

Formats are texts that are read when they are used, so that much can be wrong with them. `Concern` says what a fault is
about; a program may take faults of one concern lightly and stop at another.
-/

namespace InfixCalculator

/-- What a fault of a format is about. -/
inductive Concern where
  /-- The text of the format. -/
  | form
  /-- The name of a value. -/
  | name
  /-- The number of a value, or a place in one. -/
  | place
  /-- The kind of a value. -/
  | kind
  /-- A property that a value lacks. -/
  | property
  /-- The size of a number. -/
  | range
  deriving DecidableEq

end InfixCalculator
