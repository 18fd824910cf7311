import Gamebook.Proofs.Graph
import Gamebook.Story.Validation
import Mathlib.Data.List.Nodup

/-!
# The search for cycles

The depth first search finds cycles (`IsCycle`), no cycle twice, and in every strongly connected
component that has a cycle at least one (`cycles_complete`); so an acyclic graph yields nothing.

`Move` lists what one step can do.  `Invariant` ties marks, path and stack together and keeps one
list that the search itself does not have, the nodes in the order in which they were finished, the
latest first.  An edge that has been followed either leads to a node finished before its source,
or closes a cycle that was found, or leads to the next node on the path.  When the search is over
only the first two are left, and edges of the first kind alone cannot lead around a cycle.

`remaining` counts the steps still to make; it falls by one with every step, and `Graph.work` is
its value for a search that has not begun.
-/

namespace Gamebook

namespace Search

variable {g : Graph} {s t : Search} {a b : String} {done : List String}

/-! ## One step -/

/-- What a step does to a search that has an open node. -/
inductive Move (g : Graph) : Search → Search → Prop where
  /-- All edges of the innermost node have been followed. -/
  | leave (marks : Table Mark) (path : List String) (node : String)
      (rest : List (String × List String)) (cycles : List (List String)) :
    Move g ⟨marks, path, (node, []) :: rest, cycles⟩
      ⟨marks.put node .finished, path.dropLast, rest, cycles⟩
  /-- The next edge leads back to an open node. -/
  | close (marks : Table Mark) (path : List String) (node next : String) (edges : List String)
      (rest : List (String × List String)) (cycles : List (List String))
      (h : marks.get? next = some .opened) :
    Move g ⟨marks, path, (node, next :: edges) :: rest, cycles⟩
      ⟨marks, path, (node, edges) :: rest,
        if cycles.contains (path.dropWhile (· != next) ++ [next]) then cycles
        else cycles ++ [path.dropWhile (· != next) ++ [next]]⟩
  /-- The next edge leads to a finished node. -/
  | pass (marks : Table Mark) (path : List String) (node next : String) (edges : List String)
      (rest : List (String × List String)) (cycles : List (List String))
      (h : marks.get? next = some .finished) :
    Move g ⟨marks, path, (node, next :: edges) :: rest, cycles⟩
      ⟨marks, path, (node, edges) :: rest, cycles⟩
  /-- The next edge leads to a node that has not been reached before. -/
  | enter (marks : Table Mark) (path : List String) (node next : String) (edges : List String)
      (rest : List (String × List String)) (cycles : List (List String))
      (h : marks.get? next = none) :
    Move g ⟨marks, path, (node, next :: edges) :: rest, cycles⟩
      ⟨marks.put next .opened, path ++ [next],
        (next, g.successors next) :: (node, edges) :: rest, cycles⟩

theorem move_step (hs : s.stack ≠ []) : Move g s (s.step g) := by
  obtain ⟨marks, path, stack, cycles⟩ := s
  match stack with
  | [] => exact absurd rfl hs
  | (node, []) :: rest => exact .leave marks path node rest cycles
  | (node, next :: edges) :: rest =>
    cases h : marks.get? next with
    | none =>
      simp only [step, h]
      exact .enter marks path node next edges rest cycles h
    | some mark =>
      cases mark with
      | opened =>
        simp only [step, h]
        exact .close marks path node next edges rest cycles h
      | finished =>
        simp only [step, h]
        exact .pass marks path node next edges rest cycles h

/-- A node that has a mark keeps one. -/
theorem Move.marked (h : Move g s t) (ha : s.marks.get? a ≠ none) : t.marks.get? a ≠ none := by
  cases h with
  | leave marks path node =>
    rw [Table.get?_put]
    split
    · simp
    · exact ha
  | close => exact ha
  | pass => exact ha
  | enter marks path node next =>
    rw [Table.get?_put]
    split
    · simp
    · exact ha

/-! ## The invariant -/

/-- An edge that has been dealt with: it leads to a finished node or closes a cycle that was
found. -/
def Settled (done : List String) (cycles : List (List String)) (a b : String) : Prop :=
  b ∈ done ∨ ∃ front, front ++ [a, b] ∈ cycles

/-- Finished nodes, the latest first: the edges of each are settled by the nodes before it. -/
inductive Finished (g : Graph) (cycles : List (List String)) : List String → Prop where
  | nil : Finished g cycles []
  | cons {a : String} {done : List String} (edges : ∀ b, g.Edge a b → Settled done cycles a b)
      (rest : Finished g cycles done) : Finished g cycles (a :: done)

/-- The nodes of a stack with the edges that are still to follow.  The other edges of a node are
settled, but for the one that leads to the node above it. -/
inductive Frames (g : Graph) (done : List String) (cycles : List (List String)) :
    (above : Option String) → List (String × List String) → Prop where
  | nil (above : Option String) : Frames g done cycles above []
  | cons {above : Option String} {a : String} {edges : List String}
      {rest : List (String × List String)} (left : ∀ b ∈ edges, g.Edge a b)
      (followed : ∀ b, g.Edge a b → b ∈ edges ∨ above = some b ∨ Settled done cycles a b)
      (below : Frames g done cycles (some a) rest) :
      Frames g done cycles above ((a, edges) :: rest)

/-- What holds of a search after every step, with the nodes that it has finished. -/
structure Invariant (g : Graph) (s : Search) (done : List String) : Prop where
  path_eq : s.path = (s.stack.map Prod.fst).reverse
  nodup : s.path.Nodup
  walk : s.path.IsChain g.Edge
  opened : ∀ a, s.marks.get? a = some .opened ↔ a ∈ s.path
  finished : ∀ a, s.marks.get? a = some .finished ↔ a ∈ done
  frames : Frames g done s.cycles none s.stack
  order : Finished g s.cycles done
  distinct : s.cycles.Nodup
  sound : ∀ chain ∈ s.cycles, g.IsCycle chain

section
variable {cycles cycles' : List (List String)} {above : Option String}
  {stack : List (String × List String)}

theorem Settled.mono {done' : List String} (h : Settled done cycles a b)
    (hd : ∀ x ∈ done, x ∈ done') (hc : ∀ x ∈ cycles, x ∈ cycles') : Settled done' cycles' a b := by
  rcases h with h | ⟨front, h⟩
  · exact .inl (hd b h)
  · exact .inr ⟨front, hc _ h⟩

theorem Finished.mono (h : Finished g cycles done) (hc : ∀ x ∈ cycles, x ∈ cycles') :
    Finished g cycles' done := by
  induction h with
  | nil => exact .nil
  | cons edges _ ih => exact .cons (fun b hb => (edges b hb).mono (fun _ hx => hx) hc) ih

theorem Frames.mono (h : Frames g done cycles above stack) (hc : ∀ x ∈ cycles, x ∈ cycles') :
    Frames g done cycles' above stack := by
  induction h with
  | nil above => exact .nil above
  | cons left followed _ ih =>
    refine .cons left (fun b hb => ?_) ih
    rcases followed b hb with h | h | h
    · exact .inl h
    · exact .inr (.inl h)
    · exact .inr (.inr (h.mono (fun _ hx => hx) hc))

/-- Once the node above a stack is finished, all edges that were followed are settled. -/
theorem Frames.finish {above' : Option String} (h : Frames g done cycles above stack)
    (ha : ∀ b, above = some b → above' = some b ∨ b = a) :
    Frames g (a :: done) cycles above' stack := by
  induction h generalizing above' with
  | nil => exact .nil above'
  | cons left followed _ ih =>
    refine .cons left (fun b hb => ?_) (ih fun b hb => .inl hb)
    rcases followed b hb with h | h | h
    · exact .inl h
    · rcases ha b h with h | rfl
      · exact .inr (.inl h)
      · exact .inr (.inr (.inl List.mem_cons_self))
    · exact .inr (.inr (h.mono (fun x hx => List.mem_cons_of_mem a hx) fun _ hx => hx))

theorem Frames.edge_of_mem {edges : List String}
    (h : Frames g done cycles above ((a, edges) :: stack)) (hb : b ∈ edges) : g.Edge a b := by
  cases h with
  | cons left => exact left b hb

/-- The next edge of the innermost node may be taken off once it is settled or leads to a new
node above. -/
theorem Frames.follow {node next : String} {edges : List String}
    (h : Frames g done cycles none ((node, next :: edges) :: stack))
    (hn : above = some next ∨ Settled done cycles node next) :
    Frames g done cycles above ((node, edges) :: stack) := by
  cases h with
  | cons left followed below =>
    refine .cons (fun b hb => left b (List.mem_cons_of_mem next hb)) (fun b hb => ?_) below
    rcases followed b hb with h | h | h
    · rcases List.mem_cons.1 h with rfl | h
      · exact .inr hn
      · exact .inl h
    · cases h
    · exact .inr (.inr h)

end

/-! ## Steps keep the invariant -/

section
variable {marks : Table Mark} {path : List String} {node next : String} {edges : List String}
  {rest : List (String × List String)} {cycles : List (List String)}

theorem Invariant.path_concat
    (h : Invariant g ⟨marks, path, (node, edges) :: rest, cycles⟩ done) :
    path = (rest.map Prod.fst).reverse ++ [node] := by
  simpa using h.path_eq

theorem Invariant.leave (h : Invariant g ⟨marks, path, (node, []) :: rest, cycles⟩ done) :
    Invariant g ⟨marks.put node .finished, path.dropLast, rest, cycles⟩ (node :: done) := by
  obtain rfl := h.path_concat
  have hn := h.nodup
  rw [List.nodup_append] at hn
  have hnode : node ∉ (rest.map Prod.fst).reverse := fun hm =>
    hn.2.2 node hm node (List.mem_singleton.2 rfl) rfl
  rw [List.dropLast_concat]
  cases h.frames with | cons left followed below
  refine ⟨rfl, hn.1, h.walk.left_of_append, fun a => ?_, fun a => ?_, ?_, ?_, h.distinct,
    h.sound⟩
  · rw [Table.get?_put]
    split
    · next ha =>
      subst ha
      exact ⟨fun hm => by simp at hm, fun hm => absurd hm hnode⟩
    · next ha => simpa [ha] using h.opened a
  · rw [Table.get?_put, List.mem_cons]
    split
    · next ha => simp [ha]
    · next ha => simpa [ha] using h.finished a
  · exact below.finish fun b hb => .inr (Option.some.inj hb).symm
  · refine .cons (fun b hb => ?_) h.order
    rcases followed b hb with h | h | h
    · cases h
    · cases h
    · exact h

theorem dropWhile_ne_eq_cons {l : List String} (h : a ∈ l) :
    ∃ inner, l.dropWhile (· != a) = a :: inner := by
  induction l with
  | nil => simp at h
  | cons b l ih =>
    by_cases hb : b = a
    · subst hb
      exact ⟨l, by simp⟩
    · rw [List.dropWhile_cons_of_pos (by simpa using hb)]
      exact ih ((List.mem_cons.1 h).resolve_left fun e => hb e.symm)

/-- The path from an open node on, closed by an edge back to that node, is a cycle. -/
theorem Invariant.isCycle (h : Invariant g ⟨marks, path, (node, edges) :: rest, cycles⟩ done)
    (hn : next ∈ path) (he : g.Edge node next) :
    g.IsCycle (path.dropWhile (· != next) ++ [next]) ∧
      ∃ front, path.dropWhile (· != next) ++ [next] = front ++ [node, next] := by
  have hlast : path.getLast? = some node := by rw [h.path_concat, List.getLast?_concat]
  have hsuffix : path.dropWhile (· != next) <:+ path := List.dropWhile_suffix _
  obtain ⟨inner, hinner⟩ := dropWhile_ne_eq_cons hn
  rw [hinner] at hsuffix ⊢
  have hend : (next :: inner).getLast? = some node := by
    obtain ⟨front, hfront⟩ := hsuffix
    rw [← hfront, List.getLast?_append] at hlast
    simpa using hlast
  refine ⟨⟨next, inner, rfl, h.nodup.sublist hsuffix.sublist, ?_⟩, ?_⟩
  · refine List.isChain_append.2 ⟨h.walk.suffix hsuffix, .singleton next, ?_⟩
    intro x hx y hy
    cases hend.symm.trans hx
    cases hy
    exact he
  · obtain ⟨front, hfront⟩ := List.getLast?_eq_some_iff.1 hend
    exact ⟨front, by rw [hfront, List.append_assoc]; rfl⟩

theorem Invariant.close
    (h : Invariant g ⟨marks, path, (node, next :: edges) :: rest, cycles⟩ done)
    (hm : marks.get? next = some .opened) :
    Invariant g ⟨marks, path, (node, edges) :: rest,
      if cycles.contains (path.dropWhile (· != next) ++ [next]) then cycles
      else cycles ++ [path.dropWhile (· != next) ++ [next]]⟩ done := by
  obtain ⟨hcycle, front, hfront⟩ :=
    h.isCycle ((h.opened next).1 hm) (h.frames.edge_of_mem List.mem_cons_self)
  generalize path.dropWhile (· != next) ++ [next] = chain at hcycle hfront ⊢
  -- whether the chain is new or not, it is among the cycles afterwards
  generalize hc : (if cycles.contains chain then cycles else cycles ++ [chain]) = cycles'
  have hsub : ∀ x ∈ cycles, x ∈ cycles' := by
    intro x hx
    rw [← hc]
    split
    · exact hx
    · exact List.mem_append_left _ hx
  have hmem : ∀ x ∈ cycles', x ∈ cycles ∨ x = chain := by
    intro x hx
    rw [← hc] at hx
    split at hx
    · exact .inl hx
    · simpa using hx
  have hchain : chain ∈ cycles' := by
    rw [← hc]
    split
    · next hin => exact List.contains_iff_mem.1 hin
    · exact List.mem_concat_self
  refine ⟨h.path_eq, h.nodup, h.walk, h.opened, h.finished, ?_, h.order.mono hsub, ?_, ?_⟩
  · exact (h.frames.mono hsub).follow (.inr (.inr ⟨front, hfront ▸ hchain⟩))
  · rw [← hc]
    split
    · exact h.distinct
    · next hnot =>
      rw [← List.concat_eq_append, List.nodup_concat]
      exact ⟨fun hin => hnot (List.contains_iff_mem.2 hin), h.distinct⟩
  · intro x hx
    rcases hmem x hx with hx | rfl
    · exact h.sound x hx
    · exact hcycle

theorem Invariant.pass
    (h : Invariant g ⟨marks, path, (node, next :: edges) :: rest, cycles⟩ done)
    (hm : marks.get? next = some .finished) :
    Invariant g ⟨marks, path, (node, edges) :: rest, cycles⟩ done :=
  ⟨h.path_eq, h.nodup, h.walk, h.opened, h.finished,
    h.frames.follow (.inr (.inl ((h.finished next).1 hm))), h.order, h.distinct, h.sound⟩

theorem Invariant.enter
    (h : Invariant g ⟨marks, path, (node, next :: edges) :: rest, cycles⟩ done)
    (hm : marks.get? next = none) :
    Invariant g ⟨marks.put next .opened, path ++ [next],
      (next, g.successors next) :: (node, edges) :: rest, cycles⟩ done := by
  have hpath : next ∉ path := by
    rw [← h.opened, hm]
    simp
  have hdone : next ∉ done := by
    rw [← h.finished, hm]
    simp
  refine ⟨?_, ?_, ?_, fun a => ?_, fun a => ?_, ?_, h.order, h.distinct, h.sound⟩
  · simp [h.path_concat]
  · rw [← List.concat_eq_append, List.nodup_concat]
    exact ⟨hpath, h.nodup⟩
  · refine List.isChain_append.2 ⟨h.walk, .singleton next, ?_⟩
    intro x hx y hy
    rw [h.path_concat, List.getLast?_concat] at hx
    cases hx
    cases hy
    exact h.frames.edge_of_mem List.mem_cons_self
  · rw [Table.get?_put, List.mem_append, List.mem_singleton]
    split
    · next ha => simp [ha]
    · next ha => simpa [ha] using h.opened a
  · rw [Table.get?_put]
    split
    · next ha => simpa [ha] using hdone
    · exact h.finished a
  · exact .cons (fun b hb => hb) (fun b hb => .inl hb) (h.frames.follow (.inl rfl))

end

/-- A step keeps the invariant; the finished nodes stay. -/
theorem Invariant.step (h : Invariant g s done) (hs : s.stack ≠ []) :
    ∃ done', Invariant g (s.step g) done' := by
  have hm : Move g s (s.step g) := move_step hs
  generalize s.step g = t at hm
  cases hm with
  | leave => exact ⟨_, h.leave⟩
  | close _ _ _ _ _ _ _ hn => exact ⟨_, h.close hn⟩
  | pass _ _ _ _ _ _ _ hn => exact ⟨_, h.pass hn⟩
  | enter _ _ _ _ _ _ _ hn => exact ⟨_, h.enter hn⟩

/-! ## The number of steps -/

/-- The steps that nodes take, given the edges that are to be followed from each: one for every
edge, and one to leave the node. -/
def cost (nodes : List (String × List String)) : Nat :=
  nodes.length + (nodes.flatMap Prod.snd).length

/-- The nodes of a graph that have no mark, with their edges. -/
def unmarked (g : Graph) (marks : Table Mark) : List (String × List String) :=
  g.entries.filter fun e => (marks.get? e.1).isNone

/-- The steps that are still to make before every node is finished. -/
def remaining (g : Graph) (s : Search) : Nat :=
  cost s.stack + cost (unmarked g s.marks)

theorem cost_cons (a : String) (edges : List String) (nodes : List (String × List String)) :
    cost ((a, edges) :: nodes) = cost nodes + edges.length + 1 := by
  simp only [cost, List.flatMap_cons, List.length_append, List.length_cons]
  omega

theorem cost_filter_le (p : String × List String → Bool) (nodes : List (String × List String)) :
    cost (nodes.filter p) ≤ cost nodes := by
  induction nodes with
  | nil => exact Nat.le_refl _
  | cons e nodes ih =>
    obtain ⟨a, edges⟩ := e
    rw [List.filter_cons]
    split
    · rw [cost_cons, cost_cons]
      omega
    · rw [cost_cons]
      omega

theorem cost_perm {nodes nodes' : List (String × List String)} (h : nodes.Perm nodes') :
    cost nodes = cost nodes' := by
  unfold cost
  rw [h.length_eq, (h.flatMap_right Prod.snd).length_eq]

/-- A node that gets its first mark is no longer among the unmarked ones. -/
theorem perm_unmarked_put {marks : Table Mark} (mark : Mark) (ha : a ∈ g.keys)
    (hm : marks.get? a = none) :
    (unmarked g marks).Perm ((a, g.successors a) :: unmarked g (marks.put a mark)) := by
  obtain ⟨edges, hedges⟩ := Table.mem_keys_iff.1 ha
  have hsucc : g.successors a = edges := by
    unfold Graph.successors
    rw [hedges]
    rfl
  have hmem : (a, edges) ∈ unmarked g marks :=
    List.mem_filter.2 ⟨Table.get?_eq_some_iff.1 hedges, by rw [hm]; rfl⟩
  have hnodup : (unmarked g marks).Nodup := (List.Nodup.of_map Prod.fst g.nodup).filter _
  have herase : (unmarked g marks).erase (a, edges) = unmarked g (marks.put a mark) := by
    unfold unmarked at hnodup ⊢
    rw [hnodup.erase_eq_filter, List.filter_filter]
    refine List.filter_congr fun e he => ?_
    obtain ⟨b, edges'⟩ := e
    rw [Table.get?_put]
    by_cases hb : b = a
    · -- the entry of the node is the one that is taken out
      subst hb
      have hsame := hedges.symm.trans (Table.get?_eq_some_iff.2 he)
      simp [Option.some.inj hsame]
    · simp [hb]
  rw [hsucc, ← herase]
  exact List.perm_cons_erase hmem

theorem cost_unmarked_put {marks : Table Mark} (mark : Mark) (ha : a ∈ g.keys)
    (hm : marks.get? a = none) :
    cost (unmarked g marks) =
      cost (unmarked g (marks.put a mark)) + (g.successors a).length + 1 := by
  rw [cost_perm (perm_unmarked_put mark ha hm), cost_cons]

/-- A second mark changes nothing. -/
theorem unmarked_put_of_marked {marks : Table Mark} (mark : Mark) (hm : marks.get? a ≠ none) :
    unmarked g (marks.put a mark) = unmarked g marks := by
  refine List.filter_congr fun e _ => ?_
  rw [Table.get?_put]
  split
  · next he =>
    rw [he]
    cases h : marks.get? a with
    | none => exact absurd h hm
    | some _ => rfl
  · rfl

/-- Every step is one of those that remained. -/
theorem Invariant.remaining_step (hg : g.Closed) (h : Invariant g s done) (hs : s.stack ≠ []) :
    remaining g s = remaining g (s.step g) + 1 := by
  have hm : Move g s (s.step g) := move_step hs
  generalize s.step g = t at hm
  unfold remaining
  cases hm with
  | leave marks path node rest cycles =>
    have hnode : marks.get? node ≠ none := by
      have : node ∈ path := by
        rw [h.path_concat]
        exact List.mem_concat_self
      rw [(h.opened node).2 this]
      simp
    simp only [cost_cons, unmarked_put_of_marked _ hnode, List.length_nil]
    omega
  | close =>
    simp only [cost_cons, List.length_cons]
    omega
  | pass =>
    simp only [cost_cons, List.length_cons]
    omega
  | enter marks path node next edges rest cycles hn =>
    have hk : next ∈ g.keys := hg node next (h.frames.edge_of_mem List.mem_cons_self)
    simp only [cost_cons, List.length_cons, cost_unmarked_put .opened hk hn]
    omega

/-! ## Whole searches -/

/-- A search without open nodes that may be continued from another root. -/
structure Idle (g : Graph) (s : Search) (done : List String) : Prop extends
    Invariant g s done where
  stack_eq : s.stack = []

theorem Invariant.drain (hg : g.Closed) {fuel : Nat} (h : Invariant g s done)
    (hf : remaining g s ≤ fuel) :
    (∃ done', Idle g (s.drain g fuel) done') ∧
      ∀ a, s.marks.get? a ≠ none → (s.drain g fuel).marks.get? a ≠ none := by
  induction fuel generalizing s done with
  | zero =>
    have hstack : s.stack = [] := by
      unfold remaining cost at hf
      exact List.eq_nil_of_length_eq_zero (by omega)
    exact ⟨⟨done, h, hstack⟩, fun _ ha => ha⟩
  | succ fuel ih =>
    unfold Search.drain
    split
    · next hs => exact ⟨⟨done, h, List.isEmpty_iff.1 hs⟩, fun _ ha => ha⟩
    · next hs =>
      have hs : s.stack ≠ [] := fun e => hs (by rw [e]; rfl)
      obtain ⟨done', h'⟩ := h.step hs
      have hr := h.remaining_step hg hs
      obtain ⟨hidle, hmarks⟩ := ih h' (by omega)
      exact ⟨hidle, fun a ha => hmarks a ((move_step hs).marked ha)⟩

theorem idle_init (g : Graph) : Idle g {} [] := by
  refine ⟨⟨rfl, .nil, .nil, ?_, ?_, .nil none, .nil, .nil, ?_⟩, rfl⟩ <;> simp

theorem Idle.path_eq_nil (h : Idle g s done) : s.path = [] := by
  rw [h.path_eq, h.stack_eq]
  rfl

/-- A search goes on from a root as from any other node. -/
theorem Idle.start {root : String} (h : Idle g s done) (hm : s.marks.get? root = none) :
    Invariant g (s.start g root) done := by
  have hdone : root ∉ done := by
    rw [← h.finished, hm]
    simp
  refine ⟨rfl, by simp [Search.start], .singleton root, fun a => ?_, fun a => ?_, ?_, h.order,
    h.distinct, h.sound⟩
  · unfold Search.start
    rw [Table.get?_put, List.mem_singleton]
    split
    · next ha => simp [ha]
    · next ha => simpa [ha, h.path_eq_nil] using h.opened a
  · unfold Search.start
    rw [Table.get?_put]
    split
    · next ha => simpa [ha] using hdone
    · exact h.finished a
  · exact .cons (fun b hb => hb) (fun b hb => .inl hb) (.nil _)

/-- A search from a root makes no more steps than the graph has nodes and edges. -/
theorem remaining_start_le {root : String} (hr : root ∈ g.keys)
    (hm : s.marks.get? root = none) : remaining g (s.start g root) ≤ g.work :=
  calc remaining g (s.start g root)
      = cost [(root, g.successors root)] + cost (unmarked g (s.marks.put root .opened)) := rfl
    _ = cost (unmarked g s.marks) := by
      rw [cost_unmarked_put .opened hr hm, cost_cons]
      unfold cost
      simp
      omega
    _ ≤ cost g.entries := cost_filter_le _ _
    _ = g.work := rfl

theorem Idle.searchFrom {root : String} (hg : g.Closed) (hr : root ∈ g.keys) (h : Idle g s done) :
    (∃ done', Idle g (g.searchFrom s root) done') ∧
      ∀ a, a = root ∨ s.marks.get? a ≠ none → (g.searchFrom s root).marks.get? a ≠ none := by
  unfold Graph.searchFrom
  cases hm : s.marks.get? root with
  | some mark =>
    refine ⟨⟨done, h⟩, fun a ha => ?_⟩
    rcases ha with rfl | ha
    · simp [hm]
    · exact ha
  | none =>
    obtain ⟨hidle, hmarks⟩ := (h.start hm).drain hg (remaining_start_le hr hm)
    refine ⟨hidle, fun a ha => hmarks a ?_⟩
    show (s.marks.put root .opened).get? a ≠ none
    rw [Table.get?_put]
    split
    · simp
    · next hne => exact ha.resolve_left hne

theorem Idle.foldl (hg : g.Closed) {roots : List String} (hr : ∀ root ∈ roots, root ∈ g.keys)
    (h : Idle g s done) :
    (∃ done', Idle g (roots.foldl g.searchFrom s) done') ∧
      ∀ a, a ∈ roots ∨ s.marks.get? a ≠ none →
        (roots.foldl g.searchFrom s).marks.get? a ≠ none := by
  induction roots generalizing s done with
  | nil => exact ⟨⟨done, h⟩, fun a ha => ha.resolve_left (List.not_mem_nil)⟩
  | cons root roots ih =>
    obtain ⟨⟨done', h'⟩, hmarks⟩ := h.searchFrom hg (hr root List.mem_cons_self)
    obtain ⟨hidle, hmarks'⟩ := ih (fun a ha => hr a (List.mem_cons_of_mem root ha)) h'
    refine ⟨hidle, fun a ha => hmarks' a ?_⟩
    rw [List.mem_cons, or_assoc] at ha
    rcases ha with ha | ha | ha
    · exact .inr (hmarks a (.inl ha))
    · exact .inl ha
    · exact .inr (hmarks a (.inr ha))

theorem mem_roots_iff {preferred : String} : a ∈ g.roots preferred ↔ a ∈ g.keys := by
  unfold Graph.roots
  split
  · next h =>
    rw [Table.contains_iff] at h
    by_cases ha : a = preferred <;> simp [ha, h]
  · exact Iff.rfl

/-- The whole search ends with every node finished. -/
theorem search_idle (hg : g.Closed) (preferred : String) :
    ∃ done, Idle g (g.search preferred) done ∧ ∀ a ∈ g.keys, a ∈ done := by
  have hroots : ∀ root ∈ g.roots preferred, root ∈ g.keys := fun _ => mem_roots_iff.1
  obtain ⟨⟨done, h⟩, hmarks⟩ := (idle_init g).foldl hg hroots
  refine ⟨done, h, fun a ha => ?_⟩
  have hmark := hmarks a (.inl (mem_roots_iff.2 ha))
  rw [← h.finished]
  cases hm : ((g.roots preferred).foldl g.searchFrom {}).marks.get? a with
  | none => exact absurd hm hmark
  | some mark =>
    cases mark with
    | finished => rfl
    | opened =>
      -- nothing is open any more
      have := (h.opened a).1 hm
      rw [h.path_eq_nil] at this
      cases this

/-! ## Soundness and completeness -/

/-- Around a cycle edges to nodes finished before cannot go on forever, so some edge of the
component closes a cycle that was found. -/
theorem Finished.exists_closing {cycles : List (List String)} (h : Finished g cycles done)
    (ha : a ∈ done) (hc : g.OnCycle a) :
    ∃ b, g.SameComponent a b ∧ ∃ front c, front ++ [c, b] ∈ cycles := by
  induction h generalizing a with
  | nil => cases ha
  | @cons d done edges _ ih =>
    rcases List.mem_cons.1 ha with rfl | ha
    · obtain ⟨b, hab, hsame, hb⟩ := hc.exists_edge
      rcases edges b hab with hdone | ⟨front, hfront⟩
      · obtain ⟨c, hbc, hfound⟩ := ih hdone hb
        exact ⟨c, hsame.trans hbc, hfound⟩
      · exact ⟨b, hsame, front, a, hfront⟩
    · exact ih ha hc

end Search

namespace Graph

variable {g : Graph} {preferred : String}

theorem cycles_sound (hg : g.Closed) (preferred : String) :
    ∀ chain ∈ g.cycles preferred, g.IsCycle chain := by
  obtain ⟨done, h, -⟩ := Search.search_idle hg preferred
  exact h.sound

theorem cycles_nodup (hg : g.Closed) (preferred : String) : (g.cycles preferred).Nodup := by
  obtain ⟨done, h, -⟩ := Search.search_idle hg preferred
  exact h.distinct

theorem cycles_complete (hg : g.Closed) (preferred : String) {a : String} (ha : g.OnCycle a) :
    ∃ chain ∈ g.cycles preferred, ∀ b ∈ chain, g.SameComponent a b := by
  obtain ⟨done, h, hall⟩ := Search.search_idle hg preferred
  obtain ⟨b, hedge, -⟩ := ha.exists_edge
  obtain ⟨c, hac, front, d, hfront⟩ := h.order.exists_closing (hall a hedge.source_mem) ha
  have hcycle := h.sound _ hfront
  have hc : c ∈ front ++ [d, c] := by simp
  exact ⟨_, hfront, fun e he => hac.trans (hcycle.sameComponent hc he)⟩

/-- The search finds nothing exactly in graphs without cycles. -/
theorem cycles_eq_nil_iff (hg : g.Closed) : g.cycles preferred = [] ↔ g.Acyclic := by
  constructor
  · intro h a ha
    obtain ⟨chain, hchain, -⟩ := cycles_complete hg preferred ha
    rw [h] at hchain
    cases hchain
  · intro h
    rw [List.eq_nil_iff_forall_not_mem]
    intro chain hchain
    have hcycle := cycles_sound hg preferred chain hchain
    obtain ⟨a, inner, rfl, -⟩ := id hcycle
    exact h a (hcycle.onCycle List.mem_cons_self)

end Graph

namespace Story

/-- The cycles that a story is refused for are cycles of its transitions, each reported once, and
every component that has a cycle is represented among them. -/
theorem cycleIssues_characterization (s : Story) :
    ∃ chains, s.cycleIssues = chains.map .cycle ∧ chains.Nodup ∧
      (∀ chain ∈ chains, s.transitions.IsCycle chain) ∧
      (∀ a, s.transitions.OnCycle a →
        ∃ chain ∈ chains, ∀ b ∈ chain, s.transitions.SameComponent a b) ∧
      (s.transitions.Acyclic → chains = []) := by
  have hg := s.transitions_closed
  exact ⟨s.transitions.cycles s.start, rfl, Graph.cycles_nodup hg _, Graph.cycles_sound hg _,
    fun a ha => Graph.cycles_complete hg _ ha, (Graph.cycles_eq_nil_iff hg).2⟩

end Story

end Gamebook
