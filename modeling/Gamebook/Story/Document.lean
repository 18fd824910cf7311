import Gamebook.Form
import Gamebook.Condition.Shorthand
import Gamebook.Effect.Shorthand

/-!
# Story documents

A story document is checked as a whole first, and all faults of its form are reported together.
Then its conditions and effects are read in the order of the document: an object that describes
none ends the reading, a text is read as shorthand and never refused.  Whether the story hangs
together is not looked at here.
-/

namespace Gamebook

/-- Why data are no document of the form that they should have. -/
inductive DocumentError where
  /-- The text is no JSON. -/
  | notJson (fault : Datum.ReadFault)
  /-- A story has another form. -/
  | malformedStory (faults : List Fault)
  /-- A saved session has another form. -/
  | malformedSession (faults : List Fault)
  /-- An object describes no condition. -/
  | badCondition (place : String) (error : TaggedError)
  /-- An object describes no effect. -/
  | badEffect (place : String) (error : TaggedError)

namespace DocumentError

/-- What went wrong, without details. -/
def summary : DocumentError → String
  | .notJson _ => "Model document is not valid JSON"
  | .malformedStory _ => "Model document is malformed"
  | .malformedSession _ => "Session snapshot is malformed"
  | .badCondition place e => s!"Invalid condition at {place}: {e.message}"
  | .badEffect place e => s!"Invalid effect at {place}: {e.message}"

/-- The details, each on its own. -/
def details : DocumentError → List String
  | .notJson f => [f.message]
  | .malformedStory fs => fs.map Fault.message
  | .malformedSession fs => fs.map Fault.message
  | _ => []

/-- The wording of the error: the summary, and a line for each detail. -/
def message (e : DocumentError) : String :=
  String.join (e.summary :: e.details.map fun d => s!"\n  - {d}")

end DocumentError

/-- Why a document cannot be turned into a story. -/
inductive StoryError where
  | document (error : DocumentError)
  | range (error : RangeError)
  /-- The check of its form broke off. -/
  | brokenOff (message : String)

namespace Document

/-- Reads one condition of a choice; a blank text is none. -/
def readCondition (place : String) : Datum → Except StoryError (Option Condition)
  | .text s => (Condition.ofText s.toList).mapError .range
  | d =>
    match Condition.ofDatum d with
    | .ok c => .ok (some c)
    | .error (.tagged e) => .error (.document (.badCondition place e))
    | .error (.range e) => .error (.range e)

/-- Reads one effect of a choice; a blank text is none. -/
def readEffect (place : String) : Datum → Except StoryError (Option Effect)
  | .text s => (Effect.ofText s.toList).mapError .range
  | d =>
    match Effect.ofDatum d with
    | .ok e => .ok (some e)
    | .error (.tagged e) => .error (.document (.badEffect place e))
    | .error (.range e) => .error (.range e)

/-- Reads the items of a list, each with its position in its place. -/
def readEach {α β : Type} (read : (place : String) → α → Except StoryError β) (place : String) :
    (position : Nat) → List α → Except StoryError (List β)
  | _, [] => .ok []
  | i, a :: as => do
    let b ← read s!"{place}[{i}]" a
    return b :: (← readEach read place (i + 1) as)

/-- Reads the conditions and effects of a choice. -/
def readChoice (place : String) (form : ChoiceForm) : Except StoryError Choice := do
  let conditions ← readEach readCondition s!"{place}.conditions" 0 form.conditions
  let effects ← readEach readEffect s!"{place}.effects" 0 form.effects
  return {
    id := form.id
    text := form.text
    target := form.target
    conditions := conditions.filterMap id
    effects := effects.filterMap id
    outcome := form.outcome }

/-- Reads a node; its id defaults to its key. -/
def readNode (key : String) (form : NodeForm) : Except StoryError Node := do
  let choices ← readEach readChoice s!"nodes.{key}.choices" 0 form.choices
  let id :=
    match form.id with
    | some id => if id = "" then key else id
    | none => key
  return ⟨id, form.text, choices⟩

/-- Reads nodes with their keys. -/
def readNodes : List (String × NodeForm) → Except StoryError (List (String × Node))
  | [] => .ok []
  | (key, form) :: rest => do
    let node ← readNode key form
    return (key, node) :: (← readNodes rest)

end Document

/-- The story of a document with this form. -/
def Document.StoryForm.read (form : Document.StoryForm) : Except StoryError Story := do
  let nodes ← Document.readNodes form.nodes.entries
  return {
    kind := form.kind
    start := form.start
    flags := form.flags
    resources := form.resources
    nodes := Table.ofEntries nodes }

/-- Reads a story from a document. -/
def Story.ofDatum (checker : Checker) (d : Datum) : Except StoryError Story :=
  match checker.story d with
  | .error (.faults faults) => .error (.document (.malformedStory faults))
  | .error (.brokenOff message) => .error (.brokenOff message)
  | .ok form => form.read

end Gamebook
