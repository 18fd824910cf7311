import Gamebook.Datum.Shown
import Gamebook.Quantity

/-!
# The state of a play-through

Flags, resources and variables, each by name, and the clock.  A name that was never given a value
reads as false, zero and the empty text respectively.

A state is taken as it is handed over.  Any datum can stand for a flag, which is set unless the
datum is empty, and for a variable, which is read by its text.
-/

namespace Gamebook

/-- What conditions test and effects change. -/
structure State where
  flags : Table Datum := ∅
  resources : Table Quantity := ∅
  vars : Table Datum := ∅
  time : Quantity := 0

namespace State

/-- Whether a flag is set. -/
def flag (s : State) (key : String) : Bool :=
  match s.flags.get? key with
  | some d => !d.isEmpty
  | none => false

/-- The quantity of a resource. -/
def resource (s : State) (key : String) : Quantity :=
  (s.resources.get? key).getD 0

/-- The text of a variable. -/
def variableText (s : State) (key : String) : List Char :=
  match s.vars.get? key with
  | some d => d.comparedText
  | none => []

end State

end Gamebook
