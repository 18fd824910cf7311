import Gamebook.Proofs.Violation
import Gamebook.Story.Loading

/-!
# Accepted stories

What can be relied on in a story that has been loaded, from bytes, text or a document, whatever checks
the document, or that has been built and then validated: every reference names a node
(`Accepted.resolved`), and unless cycles are allowed, there are none (`Accepted.acyclic`).
-/

namespace Gamebook

namespace Story

/-- A story that loading accepts. -/
inductive Accepted (allowCycles : Bool) (story : Story) : Prop where
  | built (h : story.validated allowCycles [] = .ok story)
  | document {checker : Checker} {d : Datum} {listed : List String}
    (h : load checker d allowCycles listed = .ok story)
  | text {checker : Checker} {cs : List Char} (h : loadText checker cs allowCycles = .ok story)
  | bytes {checker : Checker} {bytes : List Nat}
    (h : loadBytes checker bytes allowCycles = .ok story)

/-- Every reference of a story names a node. -/
structure Resolved (s : Story) : Prop where
  start : s.start ∈ s.nodes.keys
  target {key : String} {node : Node} {c : Choice} (hnode : s.node? key = some node)
    (hc : c ∈ node.choices) (nonempty : c.target ≠ "") :
    Path.resolve c.target (Path.group key) ∈ s.nodes.keys
  goto {key : String} {node : Node} {c : Choice} {target : String}
    (hnode : s.node? key = some node) (hc : c ∈ node.choices) (hgoto : target ∈ c.gotos) :
    Path.resolve target (Path.group key) ∈ s.nodes.keys

variable {checker : Checker} {story : Story} {allowCycles : Bool}

theorem issues_of_validated {listed : List String} {s : Story}
    (h : s.validated allowCycles listed = .ok story) : story.issues allowCycles listed = [] := by
  unfold validated at h
  split at h
  · next heq =>
    cases h
    exact heq
  · cases h

theorem issues_of_load {d : Datum} {listed : List String}
    (h : load checker d allowCycles listed = .ok story) : story.issues allowCycles listed = [] := by
  unfold load at h
  split at h
  · exact issues_of_validated h
  · cases h

theorem issues_of_loadText {cs : List Char} (h : loadText checker cs allowCycles = .ok story) :
    ∃ listed, story.issues allowCycles listed = [] := by
  unfold loadText at h
  split at h
  · cases h
  · cases h
  · exact ⟨_, issues_of_load h⟩

theorem Accepted.issues (h : story.Accepted allowCycles) :
    ∃ listed, story.issues allowCycles listed = [] := by
  cases h with
  | built h => exact ⟨_, issues_of_validated h⟩
  | document h => exact ⟨_, issues_of_load h⟩
  | text h => exact issues_of_loadText h
  | bytes h =>
    unfold loadBytes at h
    split at h
    · cases h
    · exact issues_of_loadText h

theorem Accepted.acyclic (h : story.Accepted false) : story.transitions.Acyclic := by
  obtain ⟨listed, hi⟩ := h.issues
  exact (issues_eq_nil_iff.1 hi).2.resolve_left Bool.false_ne_true

theorem Accepted.resolved (h : story.Accepted allowCycles) : story.Resolved := by
  obtain ⟨listed, hi⟩ := h.issues
  have sound := (issues_eq_nil_iff.1 hi).1
  have position {key : String} {node : Node} {c : Choice} (hnode : story.node? key = some node)
      (hc : c ∈ node.choices) : ∃ i j : Nat,
        story.nodes.entries[i]? = some (key, node) ∧ node.choices[j]? = some c := by
    obtain ⟨i, hi⟩ := List.mem_iff_getElem?.1 (Table.get?_eq_some_iff.1 hnode)
    obtain ⟨j, hj⟩ := List.mem_iff_getElem?.1 hc
    exact ⟨i, j, hi, hj⟩
  refine ⟨?_, ?_, ?_⟩
  · apply Classical.byContradiction
    intro missing
    exact sound _ (.noStart missing)
  · intro key node c hnode hc nonempty
    obtain ⟨i, j, entry, choice⟩ := position hnode hc
    apply Classical.byContradiction
    intro missing
    exact sound _ (.choice entry choice (.missingTarget nonempty missing))
  · intro key node c target hnode hc hgoto
    obtain ⟨i, j, entry, choice⟩ := position hnode hc
    obtain ⟨_, hposition⟩ := Choice.mem_gotos_iff.1 hgoto
    apply Classical.byContradiction
    intro missing
    exact sound _ (.choice entry choice (.missingGoto hposition missing))

end Story

end Gamebook
