import Gamebook.Distinct
import Gamebook.Path
import Gamebook.Story

/-!
# Transitions

The nodes that the choices of a node may lead to, read off the story without playing it.  The
last goto outside other effects certainly overrides the target of its choice, so it stands in
for it; a goto inside another effect may or may not be applied and counts in any case.
-/

namespace Gamebook

/-- A directed graph: for each node its successors in order. -/
abbrev Graph := Table (List String)

namespace Graph

/-- The successors of a node. -/
def successors (g : Graph) (node : String) : List String :=
  (g.get? node).getD []

/-- The number of edges. -/
def edgeCount (g : Graph) : Nat :=
  (g.entries.flatMap Prod.snd).length

end Graph

namespace Choice

/-- The references that may decide where a choice leads. -/
def destinations (c : Choice) : List String :=
  ((c.effects.filterMap Effect.target?).getLast?.getD c.target)
    :: Effect.gotosOfAll (c.effects.filter fun e => e.target?.isNone)

end Choice

namespace Story

/-- The nodes that a choice of a group may lead to. -/
def choiceEdges (s : Story) (group : String) (c : Choice) : List String :=
  distinct ((c.destinations.map (Path.resolve · group)).filter s.nodes.contains)

/-- The nodes that each node may lead to. -/
def transitions (s : Story) : Graph :=
  s.nodes.mapWithKey fun path node =>
    distinct (node.choices.flatMap (s.choiceEdges (Path.group path)))

end Story

end Gamebook
