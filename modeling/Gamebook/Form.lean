import Gamebook.Story

/-!
# Forms of documents

Before a document is used, its form is checked: that the fields are there which a story or a saved
session needs, with values of the kinds that they should have.  What is left after the check is a form,
in which conditions and effects are still data.

The check is not part of the program.  `Checker` is what the program knows of it; a document that is
refused is refused with faults, each a complaint and the place of the datum that it is about.
-/

namespace Gamebook

/-- A complaint and the place that it is about, as the names and positions on the way to it. -/
structure Fault where
  place : List String
  complaint : String
  deriving DecidableEq, Repr

/-- The wording of a fault. -/
def Fault.message (f : Fault) : String :=
  let place := if f.place.isEmpty then "<root>" else ".".intercalate f.place
  s!"{place}: {f.complaint}"

/-- What comes of a check that leaves no form. -/
inductive CheckError where
  /-- The document is refused. -/
  | faults (faults : List Fault)
  /-- The check itself broke off. -/
  | brokenOff (message : String)
  deriving DecidableEq, Repr

namespace Document

/-- A choice whose conditions and effects are still data. -/
structure ChoiceForm where
  id : String
  text : String
  target : String
  conditions : List Datum
  effects : List Datum
  outcome : Option Outcome

/-- A node with such choices; it need not have an id. -/
structure NodeForm where
  id : Option String
  text : String
  choices : List ChoiceForm

/-- A story with such nodes. -/
structure StoryForm where
  kind : String
  start : String
  flags : Table Bool
  resources : Table Number
  nodes : Table NodeForm

/-- A saved session. -/
structure SessionForm where
  node : String
  flags : Table Bool
  resources : Table Number
  vars : Table Scalar
  time : Int

end Document

/-- The checks of documents. -/
structure Checker where
  story : Datum → Except CheckError Document.StoryForm
  session : Datum → Except CheckError Document.SessionForm

end Gamebook
