import Gamebook.Session
import Gamebook.Story.Document

/-!
# Saved sessions

A session is saved as the document that `Session.toDatum` writes and read back with all faults
of its form reported together.
-/

namespace Gamebook

/-- Why a document cannot be turned into a session. -/
inductive SessionError where
  | document (error : DocumentError)
  /-- The check of its form broke off. -/
  | brokenOff (message : String)

/-- The session that was saved in this form. -/
def Document.SessionForm.session (form : Document.SessionForm) : Session where
  node := form.node
  flags := form.flags.map .truth
  resources := form.resources.map .number
  vars := form.vars.map Scalar.toDatum
  time := .number (.int form.time)

/-- Reads a saved session. -/
def Session.ofDatum (checker : Checker) (d : Datum) : Except SessionError Session :=
  match checker.session d with
  | .error (.faults faults) => .error (.document (.malformedSession faults))
  | .error (.brokenOff message) => .error (.brokenOff message)
  | .ok form => .ok form.session

end Gamebook
