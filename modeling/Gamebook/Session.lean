import Gamebook.State
import Gamebook.Story

/-!
# Sessions

A session is a snapshot of a play-through: the path of the current node and the state.  A
session begins at the start of its story, or where a saved position says.
-/

namespace Gamebook

/-- A snapshot of a play-through. -/
structure Session extends State where
  node : String

/-- What a new session takes over from a saved one; an empty path is no position. -/
structure SavedPosition extends State where
  node : Option String := none

namespace Session

/-- The datum of a session, from which it can be read again. -/
def toDatum (s : Session) : Datum :=
  .object [("nodeId", .text s.node), ("flags", .object s.flags.entries),
    ("resources", .object (s.resources.map Quantity.toDatum).entries),
    ("variables", .object s.vars.entries), ("time", s.time.toDatum)]

/-- The same session at another time. -/
def atTime (s : Session) (time : Number) : Session :=
  { s with time := .number time }

end Session

namespace Story

/-- Begins a session.  Saved flags and resources win over the ones that the story starts with. -/
def begin (s : Story) (saved : SavedPosition) : Session where
  node :=
    match saved.node with
    | some path => if path = "" then s.start else path
    | none => s.start
  flags := (s.flags.map .truth).override saved.flags
  resources := (s.resources.map .number).override saved.resources
  vars := saved.vars
  time := saved.time

end Story

end Gamebook
