import Gamebook.Condition.Tagged
import Gamebook.Effect.Tagged

/-!
# Stories

A story is a graph of nodes.  Each node has a text and offers choices in order; a choice is
gated by conditions, changes the state through its effects and leads to its target.  Nodes are
found by their path, the key under which the story lists them; the id that a node carries
should be the same.
-/

namespace Gamebook

/-- What taking a choice means for the inventory: a tag and, for some tags, an item. -/
structure Outcome where
  type : String
  value : Option String
  deriving DecidableEq, Repr

/-- A way out of a node. -/
structure Choice where
  id : String
  text : String
  target : String
  conditions : List Condition
  effects : List Effect
  outcome : Option Outcome

/-- A node; one without choices ends the story. -/
structure Node where
  id : String
  text : String
  choices : List Choice

/-- A story: its kind, the path of its first node, the flags and resources to start with, and its
nodes by path. -/
structure Story where
  kind : String
  start : String
  flags : Table Bool
  resources : Table Number
  nodes : Table Node

namespace Outcome

/-- The datum of an outcome. -/
def toDatum (o : Outcome) : Datum :=
  .object <| ("type", .text o.type) ::
    match o.value with
    | some v => [("value", .text v)]
    | none => []

end Outcome

namespace Choice

/-- The targets of all gotos among the effects, at any depth. -/
def gotos (c : Choice) : List String :=
  Effect.gotosOfAll c.effects

/-- The datum of a choice; empty conditions and effects and a missing outcome are left out. -/
def toDatum (c : Choice) : Datum :=
  .object <| [("id", .text c.id), ("text", .text c.text), ("target", .text c.target)]
    ++ (if c.conditions.isEmpty then [] else
      [("conditions", .list (Condition.toData c.conditions))])
    ++ (if c.effects.isEmpty then [] else [("effects", .list (Effect.toData c.effects))])
    ++ match c.outcome with
      | some o => [("outcome", o.toDatum)]
      | none => []

end Choice

namespace Node

/-- The first choice with an id. -/
def choice? (n : Node) (id : String) : Option Choice :=
  n.choices.find? (·.id == id)

/-- The first choice that a datum asks for, which only a text can do. -/
def asked? (n : Node) : (asked : Datum) → Option Choice
  | .text id => n.choice? id
  | _ => none

/-- The datum of a node. -/
def toDatum (n : Node) : Datum :=
  .object [("id", .text n.id), ("text", .text n.text),
    ("choices", .list (n.choices.map Choice.toDatum))]

end Node

namespace Story

/-- The node at a path. -/
def node? (s : Story) (path : String) : Option Node :=
  s.nodes.get? path

/-- The datum of a story, from which it can be read again. -/
def toDatum (s : Story) : Datum :=
  .object [("modelType", .text s.kind), ("startNode", .text s.start),
    ("flags", .object (s.flags.map Datum.truth).entries),
    ("resources", .object (s.resources.map Datum.number).entries),
    ("nodes", .object (s.nodes.map Node.toDatum).entries)]

end Story

end Gamebook
