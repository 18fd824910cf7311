/-!
# Issues

What can be wrong with a story as a whole.  Each issue has a kind, a wording, and the node and
choice that it is about.
-/

namespace Gamebook

/-- The kinds of errors of stories and play-throughs. -/
inductive ErrorKind where
  | duplicateId
  | missingReference
  | circularReference
  | invalidChoice
  | invalidDocument
  deriving DecidableEq, Repr

namespace ErrorKind

/-- The tag of a kind. -/
def tag : ErrorKind → String
  | .duplicateId => "DUPLICATE_ID"
  | .missingReference => "MISSING_REFERENCE"
  | .circularReference => "CIRCULAR_REFERENCE"
  | .invalidChoice => "INVALID_CHOICE"
  | .invalidDocument => "INVALID_DOCUMENT"

/-- All kinds. -/
def all : List ErrorKind :=
  [.duplicateId, .missingReference, .circularReference, .invalidChoice, .invalidDocument]

end ErrorKind

/-- Something that is wrong with a story. -/
inductive Issue where
  /-- Several nodes carry an id, or a document lists a key repeatedly. -/
  | duplicateNode (id : String)
  /-- A node carries another id than its key. -/
  | keyMismatch (key id : String)
  /-- The story starts at a node that it does not have. -/
  | missingStart (start : String)
  /-- A choice has the id of an earlier choice of its node. -/
  | duplicateChoice (node choice : String)
  /-- A choice has neither a target nor a goto. -/
  | noTarget (node choice : String)
  /-- A choice leads to a node that the story does not have. -/
  | missingTarget (node choice target : String)
  /-- A goto leads to a node that the story does not have. -/
  | missingGoto (node choice target : String)
  /-- A reader can come back to the first node of the chain. -/
  | cycle (chain : List String)
  deriving DecidableEq, Repr

namespace Issue

/-- The kind of an issue. -/
def kind : Issue → ErrorKind
  | .duplicateNode _ => .duplicateId
  | .keyMismatch .. => .invalidDocument
  | .missingStart _ => .missingReference
  | .duplicateChoice .. => .duplicateId
  | .noTarget .. => .missingReference
  | .missingTarget .. => .missingReference
  | .missingGoto .. => .missingReference
  | .cycle _ => .circularReference

/-- The place of a choice in a message. -/
def whereText (node choice : String) : String :=
  s!"(node: {node}, choice: {choice})"

/-- The wording of an issue. -/
def message : Issue → String
  | .duplicateNode id => s!"Duplicate node ID '{id}'"
  | .keyMismatch key id => s!"Node key '{key}' does not match node ID '{id}'"
  | .missingStart start => s!"startNode '{start}' does not exist"
  | .duplicateChoice node choice =>
    s!"Duplicate choice ID '{choice}' {whereText node choice}"
  | .noTarget node choice => s!"Choice '{choice}' is missing target {whereText node choice}"
  | .missingTarget node choice target =>
    s!"Choice '{choice}' targets non-existent node '{target}' {whereText node choice}"
  | .missingGoto node choice target =>
    s!"Choice '{choice}' has goto effect targeting non-existent node '{target}' "
      ++ whereText node choice
  | .cycle chain => "Circular reference detected: " ++ " → ".intercalate chain

/-- The node that an issue is about. -/
def node? : Issue → Option String
  | .duplicateNode id => some id
  | .keyMismatch _ id => some id
  | .missingStart start => some start
  | .duplicateChoice node _ => some node
  | .noTarget node _ => some node
  | .missingTarget node _ _ => some node
  | .missingGoto node _ _ => some node
  | .cycle chain => chain.getLast?

/-- The choice that an issue is about. -/
def choice? : Issue → Option String
  | .duplicateChoice _ choice => some choice
  | .noTarget _ choice => some choice
  | .missingTarget _ choice _ => some choice
  | .missingGoto _ choice _ => some choice
  | _ => none

/-- An issue on one line, with its kind. -/
def line (i : Issue) : String :=
  s!"[{i.kind.tag}] {i.message}"

end Issue

end Gamebook
