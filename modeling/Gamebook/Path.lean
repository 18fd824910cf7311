import Gamebook.Text.Pieces
import Gamebook.Text.Blank

/-!
# Paths of nodes

Nodes are organised in nested groups: the path `chapters/intro/gate` names the node `gate` of the
group `chapters/intro`.  A reference to a node is written relative to the group of the node that
holds it:

    /a/b        absolute: a/b, and / alone is the root, the empty path
    ./x  .      in the group: group/x, and the group itself
    ../x        in the parent group, one component up for each ../
    x  sub/x    in the group: group/x, group/sub/x

Nothing here knows which nodes there are.
-/

namespace Gamebook.Path

open Text (pieces joinWith trim)

/-- A group and a path inside it; an empty one of the two leaves the other. -/
def join (group rest : List Char) : List Char :=
  if group = [] then rest
  else if rest = [] then group
  else group ++ '/' :: rest

/-- The components of a path that are not empty. -/
def components (path : List Char) : List (List Char) :=
  (pieces '/' path).filter (· != [])

/-- Counts the `../` that a reference begins with, and returns what follows them. -/
def climbs : List Char → Nat × List Char
  | '.' :: '.' :: '/' :: rest => ((climbs rest).1 + 1, (climbs rest).2)
  | reference => (0, reference)

/-- Follows a reference that begins with `../`: one component of the group falls away for each
of them, as long as there are any. -/
def climb (reference group : List Char) : List Char :=
  let (up, rest) := climbs reference
  let parts := components group
  let kept := parts.take (parts.length - up)
  joinWith ['/'] (if rest = ['.'] then kept else kept ++ components rest)

/-- The path that a reference names inside a group.  Slashes around the group do not count; the
empty reference names the empty path, which stands for no destination. -/
def follow (reference group : List Char) : List Char :=
  let group := trim (· = '/') group
  match reference with
  | [] => []
  | '/' :: rest => rest
  | ['.'] => group
  | '.' :: '/' :: rest => join group rest
  | '.' :: '.' :: '/' :: _ => climb reference group
  | _ => join group reference

/-- Splits a path at its last slash into a group and a name; without a slash the group is
empty. -/
def splitLast (path : List Char) : List Char × List Char :=
  match path.reverse.dropWhile (· != '/') with
  | [] => ([], path)
  | _ :: group => (group.reverse, (path.reverse.takeWhile (· != '/')).reverse)

/-- The path that a reference names inside a group. -/
def resolve (reference group : String) : String :=
  String.ofList (follow reference.toList group.toList)

/-- The empty reference names the empty path in every group. -/
@[simp] theorem resolve_empty (group : String) : resolve "" group = "" := rfl

/-- The group of a path. -/
def group (path : String) : String :=
  String.ofList (splitLast path.toList).1

/-- The name of a path inside its group. -/
def name (path : String) : String :=
  String.ofList (splitLast path.toList).2

end Gamebook.Path
