import Gamebook.Datum.Memory
import Gamebook.Story.Document
import Gamebook.Story.Validation
import Gamebook.Text.Utf8

/-!
# Loading stories

A story is loaded from bytes, from text or from a document that has been read.  Each way ends
with the validation of the story, and a story with issues is refused with all of them.  A story that
has been built already needs nothing but the validation (`Story.validated`).

The text of a document can list a key of its nodes repeatedly; that is an issue too, which the document
itself no longer shows.  Such keys are noted while the text is read, under the place of the object in
memory.
-/

namespace Gamebook

/-- Why a story cannot be loaded. -/
inductive LoadError where
  | notUtf8 (fault : Text.Utf8.Fault)
  | document (error : DocumentError)
  | range (error : RangeError)
  /-- The check of the document broke off. -/
  | brokenOff (message : String)
  | invalid (issues : List Issue)

/-- The wording for a story with issues, which it lists. -/
def Issue.summary (issues : List Issue) : String :=
  let lines := "\n".intercalate (issues.map fun i => s!"  {i.line}")
  s!"Model validation failed with {issues.length} issue(s):\n{lines}"

/-- The kind of the error for a story with issues: that of the first. -/
def Issue.summaryKind (issues : List Issue) : ErrorKind :=
  (issues.head?.map Issue.kind).getD .invalidDocument

/-- The failure of reading the story of a document. -/
def LoadError.ofStory : StoryError → LoadError
  | .document e => .document e
  | .range e => .range e
  | .brokenOff message => .brokenOff message

namespace Story

/-- Refuses a story with issues.  A story that has been built already is only validated. -/
def validated (s : Story) (allowCycles : Bool) (duplicates : List String) :
    Except LoadError Story :=
  match s.issues allowCycles duplicates with
  | [] => .ok s
  | issues => .error (.invalid issues)

/-- Reads and validates a story. -/
def load (checker : Checker) (d : Datum) (allowCycles : Bool) (duplicates : List String) :
    Except LoadError Story :=
  match ofDatum checker d with
  | .ok s => s.validated allowCycles duplicates
  | .error e => .error (.ofStory e)

/-- The keys noted under the place of the nodes of a written document.  Of several `nodes` members
the last one counts. -/
def notedKeys (d : Datum) : List String :=
  match d.place {} with
  | (.object _ ms, m) =>
    match ms.lookup "nodes" with
    | some (.object place _) => m.noted place
    | _ => []
  | _ => []

/-- Loads a story from text. -/
def loadText (checker : Checker) (cs : List Char) (allowCycles : Bool) : Except LoadError Story :=
  match Datum.readWritten cs with
  | .error (.malformed f) => .error (.document (.notJson f))
  | .error (.range e) => .error (.range e)
  | .ok d => load checker d.settle allowCycles (notedKeys d)

/-- Loads a story from bytes. -/
def loadBytes (checker : Checker) (bytes : List Nat) (allowCycles : Bool) :
    Except LoadError Story :=
  match Text.Utf8.decode bytes with
  | .error f => .error (.notUtf8 f)
  | .ok cs => loadText checker cs allowCycles

end Story

end Gamebook
