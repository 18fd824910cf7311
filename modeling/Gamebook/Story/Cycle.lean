import Gamebook.Story.Transition

/-!
# Cycles

A depth first search that follows edges in order.  A node is marked as open while it is on the
path from the root of the search, and as finished once all its edges have been followed.  An
edge back to an open node closes a cycle; an edge to a finished node, where branches meet again,
does not.

The search makes one step for each node and one for each edge, so `Graph.work` bounds the steps
from any root.
-/

namespace Gamebook

/-- How far the search has come with a node. -/
inductive Mark where
  | opened
  | finished
  deriving DecidableEq, Repr

/-- The state of the search: the marks, the path to the node at hand, the nodes of the path with
the edges that are still to follow, innermost first, and the cycles found. -/
structure Search where
  marks : Table Mark := ∅
  path : List String := []
  stack : List (String × List String) := []
  cycles : List (List String) := []

namespace Search

/-- Begins at a root. -/
def start (g : Graph) (s : Search) (root : String) : Search :=
  { s with
    marks := s.marks.put root .opened
    path := [root]
    stack := [(root, g.successors root)] }

/-- Follows the next edge of the innermost node, or leaves the node. -/
def step (g : Graph) (s : Search) : Search :=
  match s.stack with
  | [] => s
  | (node, []) :: rest =>
    { s with
      marks := s.marks.put node .finished
      path := s.path.dropLast
      stack := rest }
  | (node, next :: edges) :: rest =>
    match s.marks.get? next with
    | some .opened =>
      let cycle := s.path.dropWhile (· != next) ++ [next]
      { s with
        stack := (node, edges) :: rest
        cycles := if s.cycles.contains cycle then s.cycles else s.cycles ++ [cycle] }
    | some .finished => { s with stack := (node, edges) :: rest }
    | none =>
      { s with
        marks := s.marks.put next .opened
        path := s.path ++ [next]
        stack := (next, g.successors next) :: (node, edges) :: rest }

/-- Makes steps until no node is open, at most `fuel` of them. -/
def drain (g : Graph) : (fuel : Nat) → Search → Search
  | 0, s => s
  | fuel + 1, s => if s.stack.isEmpty then s else drain g fuel (s.step g)

end Search

namespace Graph

/-- The number of nodes and edges. -/
def work (g : Graph) : Nat :=
  g.size + g.edgeCount

/-- Searches from a root, unless it has been reached before. -/
def searchFrom (g : Graph) (s : Search) (root : String) : Search :=
  match s.marks.get? root with
  | some _ => s
  | none => (s.start g root).drain g g.work

/-- The roots of the search: a preferred node first, then the others in order. -/
def roots (g : Graph) (preferred : String) : List String :=
  if g.contains preferred then preferred :: g.keys.filter (· != preferred) else g.keys

/-- Searches from all roots. -/
def search (g : Graph) (preferred : String) : Search :=
  (g.roots preferred).foldl g.searchFrom {}

/-- The cycles that the search finds, each as the chain of its nodes with the first one repeated
at the end. -/
def cycles (g : Graph) (preferred : String) : List (List String) :=
  (g.search preferred).cycles

end Graph

end Gamebook
