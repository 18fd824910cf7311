import Gamebook.Story.Cycle
import Gamebook.Story.Issue

/-!
# Validating stories

`Story.issues` lists everything that is wrong with a story in one pass: ids that occur twice,
keys that differ from ids, references to missing nodes, choices that lead nowhere and, unless
they are allowed, cycles.
-/

namespace Gamebook.Story

/-- Issues with the ids of nodes, in order.  `seen` are the ids of earlier nodes, and `reported`
the ids that have been reported as duplicate. -/
def nodeIssues (seen reported : List String) : List (String × Node) → List Issue
  | [] => []
  | (key, node) :: rest =>
    if node.id ∈ seen then
      if node.id ∈ reported then nodeIssues seen reported rest
      else .duplicateNode node.id :: nodeIssues seen (node.id :: reported) rest
    else if node.id = key then nodeIssues (node.id :: seen) reported rest
    else .keyMismatch key node.id :: nodeIssues (node.id :: seen) reported rest

/-- Whether a reference inside a group names a node of the story. -/
def resolves (s : Story) (group reference : String) : Bool :=
  s.nodes.contains (Path.resolve reference group)

/-- Issues with the target of a choice. -/
def targetIssues (s : Story) (path : String) (c : Choice) : List Issue :=
  if c.target = "" then
    if c.gotos = [] then [.noTarget path c.id] else []
  else if s.resolves (Path.group path) c.target then []
  else [.missingTarget path c.id c.target]

/-- Issues with the gotos of a choice. -/
def gotoIssues (s : Story) (path : String) (c : Choice) : List Issue :=
  (c.gotos.filter fun target => !s.resolves (Path.group path) target).map
    (.missingGoto path c.id ·)

/-- Issues with the choices of a node, in order.  `seen` are the ids of earlier choices. -/
def choiceIssues (s : Story) (path : String) (seen : List String) : List Choice → List Issue
  | [] => []
  | c :: cs =>
    (if c.id ∈ seen then [.duplicateChoice path c.id] else [])
      ++ s.targetIssues path c ++ s.gotoIssues path c
      ++ choiceIssues s path (c.id :: seen) cs

/-- The issue with the start of a story. -/
def startIssues (s : Story) : List Issue :=
  if s.nodes.contains s.start then [] else [.missingStart s.start]

/-- Everything that is wrong with a story apart from cycles, where a document listed some keys
repeatedly. -/
def staticIssues (s : Story) (duplicates : List String) : List Issue :=
  (distinct duplicates).map .duplicateNode
    ++ nodeIssues [] (distinct duplicates) s.nodes.entries
    ++ s.startIssues
    ++ s.nodes.entries.flatMap fun e => s.choiceIssues e.1 [] e.2.choices

/-- The cycles of a story. -/
def cycleIssues (s : Story) : List Issue :=
  (s.transitions.cycles s.start).map .cycle

/-- Everything that is wrong with a story. -/
def issues (s : Story) (allowCycles : Bool) (duplicates : List String) : List Issue :=
  s.staticIssues duplicates ++ if allowCycles then [] else s.cycleIssues

end Gamebook.Story
