import Gamebook.Effect.Apply
import Gamebook.Path
import Gamebook.Session
import Gamebook.Story.Issue

/-!
# Turns

A turn takes the choice of the current node that is asked for: it must exist and be available,
its effects are applied to a draft of the state, and the session moves to the target of the last
goto, or else of the choice.  A target that names no node leaves the session where it is.

Which choices are available is settled first, by evaluating the conditions of each; that can fail, and
then nothing else is looked at.
-/

namespace Gamebook

/-- What is wrong with a choice. -/
inductive ChoiceFault where
  /-- The story has no node at the current path. -/
  | noNode
  /-- The current node, which carries the id, has no such choice. -/
  | notFound (nodeId : String)
  /-- The choice of the node, which carries the id, is not available. -/
  | notAvailable (nodeId : String)
  deriving DecidableEq, Repr

/-- A choice that cannot be taken: at which path, what was asked for, and the ids of the choices
that can. -/
structure ChoiceError where
  fault : ChoiceFault
  node : String
  asked : Datum
  available : List String

/-- The wording of the error. -/
def ChoiceError.message (e : ChoiceError) : String :=
  let asked := String.ofList e.asked.plain
  match e.fault with
  | .noNode => s!"Current node not found: {e.node}"
  | .notFound nodeId => s!"Choice not found: {asked} (node: {nodeId})"
  | .notAvailable nodeId => s!"Choice not available: {asked} (node: {nodeId})"

/-- Why a turn fails. -/
inductive TurnError where
  | choice (error : ChoiceError)
  | range (error : RangeError)

/-- What a turn leads to: a session or an error, and the dice after it. -/
structure Turn where
  result : Except TurnError Session
  dice : Dice

namespace Story

/-- The choices among some whose conditions hold in a state. -/
def availableAmong (s : State) : List Choice → Except RangeError (List Choice)
  | [] => .ok []
  | c :: cs => do
    if ← Condition.evaluateAll s c.conditions then return c :: (← availableAmong s cs)
    else availableAmong s cs

/-- The choices of a node that are available in a state. -/
def availableAt (node : Node) (s : State) : Except RangeError (List Choice) :=
  availableAmong s node.choices

/-- The available choices of a session; a path without a node has none. -/
def available (story : Story) (s : Session) : Except RangeError (List Choice) :=
  match story.node? s.node with
  | some node => availableAt node s.toState
  | none => .ok []

/-- The choice of a node that is asked for, if its id is among those of the available choices.  What was
asked for is part of the wording where there is no such choice, so it has to be written then. -/
def chosenAmong (available : List Choice) (node : Node) (path : String) (asked : Datum) :
    Except TurnError Choice :=
  let ids := available.map Choice.id
  match node.asked? asked with
  | none =>
    if asked.hasTooLong then .error (.range .tooLong)
    else .error (.choice ⟨.notFound node.id, path, asked, ids⟩)
  | some c => if c.id ∈ ids then .ok c else .error (.choice ⟨.notAvailable node.id, path, asked, ids⟩)

/-- The choice that a session takes when something is asked for. -/
def chosen (story : Story) (s : Session) (asked : Datum) : Except TurnError Choice :=
  match story.node? s.node with
  | none => .error (.choice ⟨.noNode, s.node, asked, []⟩)
  | some node =>
    match availableAt node s.toState with
    | .error e => .error (.range e)
    | .ok available => chosenAmong available node s.node asked

/-- Where a choice leads from a path, given the target of the last goto. -/
def destination (story : Story) (path : String) (c : Choice) (goto : Option String) : String :=
  let resolved := Path.resolve (goto.getD c.target) (Path.group path)
  if resolved = "" ∨ !story.nodes.contains resolved then path else resolved

/-- Takes the choice that is asked for. -/
def turn (story : Story) (s : Session) (asked : Datum) (dice : Dice) : Turn :=
  match story.chosen s asked with
  | .error e => ⟨.error e, dice⟩
  | .ok c =>
    match Effect.applyAll c.effects { s.toState with target := none } dice with
    | ⟨_, dice, some e⟩ => ⟨.error (.range e), dice⟩
    | ⟨draft, dice, none⟩ =>
      ⟨.ok { draft.toState with
          node := story.destination s.node c draft.target
          time := .number s.time.amount.next }, dice⟩

end Story

end Gamebook
