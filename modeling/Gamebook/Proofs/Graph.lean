import Gamebook.Story.Cycle
import Mathlib.Data.List.Chain
import Mathlib.Logic.Relation

/-!
# Walks in graphs

What it means for a graph to have cycles, said without any search: a node is on a cycle if some
walk of at least one edge leads from it back to itself, and two nodes are in one component if each
can be reached from the other.  A cycle is written as the chain of its nodes with the first one
repeated at the end.

The second part says which edges the transitions of a story have (`edge_transitions_iff`).
-/

namespace Gamebook

namespace Graph

/-- There is an edge from one node to another. -/
def Edge (g : Graph) (a b : String) : Prop :=
  b ∈ g.successors a

/-- A walk leads from one node to another; it may be empty. -/
def Reaches (g : Graph) : String → String → Prop :=
  Relation.ReflTransGen g.Edge

/-- A walk of at least one edge leads from a node back to itself. -/
def OnCycle (g : Graph) (a : String) : Prop :=
  Relation.TransGen g.Edge a a

/-- No node is on a cycle. -/
def Acyclic (g : Graph) : Prop :=
  ∀ a, ¬ g.OnCycle a

/-- Each of two nodes can be reached from the other: they are in one strongly connected
component. -/
def SameComponent (g : Graph) (a b : String) : Prop :=
  g.Reaches a b ∧ g.Reaches b a

/-- A chain along edges that ends where it begins and meets no node twice before. -/
def IsCycle (g : Graph) (chain : List String) : Prop :=
  ∃ a inner, chain = a :: (inner ++ [a]) ∧ (a :: inner).Nodup ∧ chain.IsChain g.Edge

/-- Every edge leads to a node of the graph. -/
def Closed (g : Graph) : Prop :=
  ∀ a b, g.Edge a b → b ∈ g.keys

variable {g : Graph} {a b c : String}

theorem Edge.source_mem (h : g.Edge a b) : a ∈ g.keys := by
  apply Classical.byContradiction
  intro hn
  rw [← Table.get?_eq_none_iff] at hn
  simp [Edge, successors, hn] at h

theorem SameComponent.symm (h : g.SameComponent a b) : g.SameComponent b a :=
  ⟨h.2, h.1⟩

theorem SameComponent.trans (h : g.SameComponent a b) (h' : g.SameComponent b c) :
    g.SameComponent a c :=
  ⟨h.1.trans h'.1, h'.2.trans h.2⟩

/-- A node on a cycle has a successor in its component, which is on a cycle too. -/
theorem OnCycle.exists_edge (h : g.OnCycle a) :
    ∃ b, g.Edge a b ∧ g.SameComponent a b ∧ g.OnCycle b := by
  obtain ⟨b, hab, hba⟩ := Relation.TransGen.head'_iff.1 h
  exact ⟨b, hab, ⟨.single hab, hba⟩, Relation.TransGen.tail' hba hab⟩

/-- The first node of a chain reaches all of it. -/
theorem reaches_of_chain {l : List String} (h : (a :: l).IsChain g.Edge) (hb : b ∈ a :: l) :
    g.Reaches a b := by
  induction l generalizing a with
  | nil =>
    rw [List.mem_singleton] at hb
    exact hb ▸ .refl
  | cons c l ih =>
    rw [List.isChain_cons_cons] at h
    rcases List.mem_cons.1 hb with rfl | hb
    · exact .refl
    · exact .head h.1 (ih h.2 hb)

/-- All of a chain reaches its last node. -/
theorem chain_reaches_last {l : List String} (h : (l ++ [c]).IsChain g.Edge)
    (hb : b ∈ l ++ [c]) : g.Reaches b c := by
  induction l generalizing b with
  | nil =>
    rw [List.nil_append, List.mem_singleton] at hb
    exact hb ▸ .refl
  | cons a l ih =>
    rcases List.mem_cons.1 hb with rfl | hb
    · exact reaches_of_chain h (by simp)
    · exact ih h.tail hb

/-- The nodes of a cycle are in one component. -/
theorem IsCycle.sameComponent {chain : List String} (h : g.IsCycle chain) (ha : a ∈ chain)
    (hb : b ∈ chain) : g.SameComponent a b := by
  obtain ⟨c, inner, rfl, -, hc⟩ := h
  have first : ∀ d ∈ c :: (inner ++ [c]), g.SameComponent c d := fun d hd =>
    ⟨reaches_of_chain hc hd, chain_reaches_last (l := c :: inner) hc hd⟩
  exact (first a ha).symm.trans (first b hb)

/-- A cycle in the sense of a chain makes its nodes lie on a cycle in the sense of walks. -/
theorem IsCycle.onCycle {chain : List String} (h : g.IsCycle chain) (ha : a ∈ chain) :
    g.OnCycle a := by
  obtain ⟨c, inner, rfl, -, hc⟩ := id h
  -- the first edge of the chain stays in the component of `a`
  obtain ⟨d, l, hl⟩ : ∃ d l, inner ++ [c] = d :: l := by cases inner <;> simp
  have hd : d ∈ c :: (inner ++ [c]) := by simp [hl]
  have hcd : g.Edge c d := by
    rw [hl, List.isChain_cons_cons] at hc
    exact hc.1
  have hac := h.sameComponent ha (List.mem_cons_self (a := c))
  exact Relation.TransGen.trans_right hac.1
    (Relation.TransGen.head' hcd (h.sameComponent hd ha).1)

/-- A chain in a graph without cycles meets no node twice. -/
theorem Acyclic.nodup_of_isChain (h : g.Acyclic) {l : List String} (hl : l.IsChain g.Edge) :
    l.Nodup := by
  induction l with
  | nil => exact List.nodup_nil
  | cons a l ih =>
    refine List.nodup_cons.2 ⟨fun hm => ?_, ih hl.tail⟩
    cases l with
    | nil => cases hm
    | cons b l =>
      rw [List.isChain_cons_cons] at hl
      exact h a (.head' hl.1 (reaches_of_chain hl.2 hm))

/-- A chain in a graph without cycles is not longer than the graph has nodes. -/
theorem Acyclic.length_le_size (h : g.Acyclic) (hg : g.Closed) (ha : a ∈ g.keys)
    {l : List String} (hl : (a :: l).IsChain g.Edge) : (a :: l).length ≤ g.size := by
  have hsub : a :: l ⊆ g.keys := by
    intro b hb
    rcases Relation.ReflTransGen.cases_tail (reaches_of_chain hl hb) with rfl | ⟨c, -, hcb⟩
    · exact ha
    · exact hg c b hcb
  have hle := List.Nodup.length_le_of_subset (h.nodup_of_isChain hl) hsub
  rwa [Table.keys, List.length_map] at hle

end Graph

/-! ## The transitions of a story -/

namespace Story

variable {s : Story} {path target group : String} {c : Choice}

theorem mem_choiceEdges_iff :
    target ∈ s.choiceEdges group c ↔
      target ∈ s.nodes.keys ∧ ∃ reference ∈ c.destinations, Path.resolve reference group = target := by
  unfold choiceEdges
  rw [mem_distinct, List.mem_filter, List.mem_map, Table.contains_iff]
  exact and_comm

/-- An edge leaves a node along one of its choices. -/
theorem edge_transitions_iff :
    s.transitions.Edge path target ↔
      ∃ node, s.node? path = some node ∧
        ∃ c ∈ node.choices, target ∈ s.choiceEdges (Path.group path) c := by
  unfold Graph.Edge Graph.successors transitions node?
  rw [Table.get?_mapWithKey]
  cases s.nodes.get? path with
  | none => simp
  | some node => simp

theorem transitions_closed (s : Story) : s.transitions.Closed := by
  intro a b h
  obtain ⟨node, -, c, -, hb⟩ := edge_transitions_iff.1 h
  unfold transitions
  rw [Table.keys_mapWithKey]
  exact (mem_choiceEdges_iff.1 hb).1

end Story

end Gamebook
