import Gamebook.Proofs.Search
import Mathlib.Data.List.Count

/-!
# The course of a search

`Course` follows a search step by step, from root to root and without a bound on the steps, and
collects the searches at which a step is made and the nodes that are put on the stack.  The search
for the cycles of a graph has such a course (`exists_course`), so it ends.

A step takes one from what remains, and what is put on the stack is taken from the nodes without a
mark; a search that has not begun has every node and edge before it, and nothing is left at the end.
So the steps are as many as nodes and edges, and each node is put on the stack once
(`Course.account`).  At every step the path lists the stack, and exactly its nodes are open
(`Course.invariant`).  `Story.search_bookkeeping` says all of this of the transitions of a story.
-/

namespace Gamebook

namespace Search

/-- The nodes that a second search has on its stack above the height of the first. -/
def pushed (s t : Search) : List String :=
  (t.stack.take (t.stack.length - s.stack.length)).map Prod.fst

/-- What a search does when these roots are still to come: the searches at which a step is made, the
nodes that are put on the stack, and the search at the end. -/
inductive Course (g : Graph) :
    (roots : List String) → Search → (visits : List Search) → (entered : List String) → Search →
      Prop where
  /-- No node is open, and no root is left. -/
  | complete {s : Search} (idle : s.stack = []) : Course g [] s [] [] s
  /-- The next root has been reached before. -/
  | skip {root : String} {roots : List String} {s t : Search} {visits : List Search}
      {entered : List String} (idle : s.stack = []) (marked : s.marks.get? root ≠ none)
      (rest : Course g roots s visits entered t) : Course g (root :: roots) s visits entered t
  /-- The search begins at the next root. -/
  | begin {root : String} {roots : List String} {s t : Search} {visits : List Search}
      {entered : List String} (idle : s.stack = []) (unmarked : s.marks.get? root = none)
      (rest : Course g roots (s.start g root) visits entered t) :
    Course g (root :: roots) s visits (pushed s (s.start g root) ++ entered) t
  /-- Some node is open, and a step is made. -/
  | step {roots : List String} {s t : Search} {visits : List Search} {entered : List String}
      (busy : s.stack ≠ []) (rest : Course g roots (s.step g) visits entered t) :
    Course g roots s (s :: visits) (pushed s (s.step g) ++ entered) t

variable {g : Graph} {s t u : Search} {done roots entered : List String} {visits : List Search}

/-! ## One step -/

/-- What a step puts on the stack is taken from the nodes without a mark. -/
theorem Invariant.perm_step (hg : g.Closed) (h : Invariant g s done) (hs : s.stack ≠ []) :
    (pushed s (s.step g) ++ (unmarked g (s.step g).marks).map Prod.fst).Perm
      ((unmarked g s.marks).map Prod.fst) := by
  have hm : Move g s (s.step g) := move_step hs
  generalize s.step g = t at hm
  unfold pushed
  cases hm with
  | leave marks path node rest cycles =>
    have hnode : marks.get? node ≠ none := by
      rw [(h.opened node).2 (by rw [h.path_concat]; exact List.mem_concat_self)]
      simp
    simp [unmarked_put_of_marked _ hnode]
  | close => simp
  | pass => simp
  | enter marks path node next edges rest cycles hn =>
    have hk : next ∈ g.keys := hg node next (h.frames.edge_of_mem List.mem_cons_self)
    simpa using ((perm_unmarked_put .opened hk hn).map Prod.fst).symm

/-- So is a root that the search begins at. -/
theorem perm_start {root : String} (hr : root ∈ g.keys) (hs : s.stack = [])
    (hm : s.marks.get? root = none) :
    (pushed s (s.start g root) ++ (unmarked g (s.start g root).marks).map Prod.fst).Perm
      ((unmarked g s.marks).map Prod.fst) := by
  unfold pushed start
  simpa [hs] using ((perm_unmarked_put .opened hr hm).map Prod.fst).symm

/-- To begin at a root takes no step. -/
theorem remaining_start {root : String} (hr : root ∈ g.keys) (hs : s.stack = [])
    (hm : s.marks.get? root = none) : remaining g (s.start g root) = remaining g s := by
  unfold remaining start
  rw [hs, cost_unmarked_put .opened hr hm, cost_cons]
  unfold cost
  simp
  omega

/-! ## Whole courses -/

/-- The invariant of the search holds wherever a course makes a step. -/
theorem Course.invariant (h : Invariant g s done) (course : Course g roots s visits entered t) :
    ∀ u ∈ visits, ∃ done', Invariant g u done' := by
  induction course generalizing done with
  | complete => exact List.forall_mem_nil _
  | skip _ _ _ ih => exact ih h
  | begin idle unmarked _ ih =>
    have hidle : Idle g _ done := ⟨h, idle⟩
    exact ih (hidle.start unmarked)
  | step busy _ ih =>
    obtain ⟨done', h'⟩ := h.step busy
    exact List.forall_mem_cons.2 ⟨⟨done, h⟩, ih h'⟩

/-- A course makes the steps that remain and enters the nodes without a mark, if all of those are
among its roots. -/
theorem Course.account (hg : g.Closed) (h : Invariant g s done)
    (hr : ∀ root ∈ roots, root ∈ g.keys)
    (hall : ∀ a ∈ g.keys, a ∈ roots ∨ s.marks.get? a ≠ none)
    (course : Course g roots s visits entered t) :
    visits.length = remaining g s ∧ entered.Perm ((unmarked g s.marks).map Prod.fst) := by
  induction course generalizing done with
  | @complete s idle =>
    have hnone : unmarked g s.marks = [] := by
      refine List.filter_eq_nil_iff.2 fun e he => ?_
      have hmarked := (hall e.1 (List.mem_map_of_mem he)).resolve_left List.not_mem_nil
      simpa using hmarked
    simp [remaining, idle, hnone, cost]
  | skip _ marked _ ih =>
    refine ih h (fun root hroot => hr root (List.mem_cons_of_mem _ hroot)) fun a ha => ?_
    rcases hall a ha with hroot | hmark
    · rcases List.mem_cons.1 hroot with rfl | hroot
      · exact .inr marked
      · exact .inl hroot
    · exact .inr hmark
  | @begin root roots s t visits entered idle unmarked _ ih =>
    have hidle : Idle g s done := ⟨h, idle⟩
    have hroot : root ∈ g.keys := hr root List.mem_cons_self
    obtain ⟨hlength, hperm⟩ := ih (hidle.start unmarked)
      (fun root hroot => hr root (List.mem_cons_of_mem _ hroot)) fun a ha => by
        show a ∈ roots ∨ (s.marks.put root .opened).get? a ≠ none
        rw [Table.get?_put]
        by_cases hsame : a = root
        · simp [hsame]
        · rw [if_neg hsame]
          exact (hall a ha).imp_left fun hmem => (List.mem_cons.1 hmem).resolve_left hsame
    exact ⟨hlength.trans (remaining_start hroot idle unmarked),
      (hperm.append_left _).trans (perm_start hroot idle unmarked)⟩
  | step busy _ ih =>
    obtain ⟨done', h'⟩ := h.step busy
    obtain ⟨hlength, hperm⟩ := ih h' hr fun a ha =>
      (hall a ha).imp_right (move_step busy).marked
    refine ⟨?_, (hperm.append_left _).trans (h.perm_step hg busy)⟩
    rw [List.length_cons, hlength, h.remaining_step hg busy]

/-! ## Existence -/

theorem exists_course_drain (hg : g.Closed) {fuel : Nat} (h : Invariant g s done)
    (hf : remaining g s ≤ fuel) (rest : Course g roots (s.drain g fuel) visits entered t) :
    ∃ visits' entered', Course g roots s visits' entered' t := by
  induction fuel generalizing s done with
  | zero => exact ⟨visits, entered, rest⟩
  | succ fuel ih =>
    unfold Search.drain at rest
    split at rest
    · exact ⟨visits, entered, rest⟩
    · next hs =>
      have hs : s.stack ≠ [] := fun e => hs (by rw [e]; rfl)
      obtain ⟨done', h'⟩ := h.step hs
      have hr := h.remaining_step hg hs
      obtain ⟨visits', entered', course⟩ := ih h' (by omega) rest
      exact ⟨_, _, .step hs course⟩

/-- The search from root to root, each of them drained, has a course. -/
theorem exists_course (hg : g.Closed) (hr : ∀ root ∈ roots, root ∈ g.keys) (h : Idle g s done) :
    ∃ visits entered, Course g roots s visits entered (roots.foldl g.searchFrom s) := by
  induction roots generalizing s done with
  | nil => exact ⟨_, _, .complete h.stack_eq⟩
  | cons root roots ih =>
    have hroot : root ∈ g.keys := hr root List.mem_cons_self
    obtain ⟨⟨done', h'⟩, -⟩ := h.searchFrom hg hroot
    obtain ⟨visits, entered, course⟩ :=
      ih (fun root hroot => hr root (List.mem_cons_of_mem _ hroot)) h'
    rw [List.foldl_cons]
    unfold Graph.searchFrom at course ⊢
    cases hm : s.marks.get? root with
    | some mark =>
      rw [hm] at course
      exact ⟨_, _, .skip h.stack_eq (by simp [hm]) course⟩
    | none =>
      rw [hm] at course
      obtain ⟨visits', entered', course'⟩ :=
        exists_course_drain hg (h.start hm) (remaining_start_le hroot hm) course
      exact ⟨_, _, .begin h.stack_eq hm course'⟩

end Search

namespace Story

/-- The search for the cycles of a story ends.  It makes as many steps as its transitions have nodes
and edges, and puts each node on the stack once.  Wherever a step is made, the path lists the nodes of
the stack and exactly those are open, so that the path can be cut at an open node; and at the end every
node is finished. -/
theorem search_bookkeeping (s : Story) :
    ∃ visits entered,
      Search.Course s.transitions (s.transitions.roots s.start) {} visits entered
        (s.transitions.search s.start) ∧
      visits.length = s.transitions.size + s.transitions.edgeCount ∧
      (∀ node, entered.count node = if node ∈ s.transitions.keys then 1 else 0) ∧
      (∀ u ∈ visits, u.path = (u.stack.map Prod.fst).reverse ∧
        ∀ node, u.marks.get? node = some .opened ↔ node ∈ u.path) ∧
      ∀ node ∈ s.transitions.keys,
        (s.transitions.search s.start).marks.get? node = some .finished := by
  have hg := s.transitions_closed
  have hroots : ∀ root ∈ s.transitions.roots s.start, root ∈ s.transitions.keys :=
    fun _ => Search.mem_roots_iff.1
  have hidle := Search.idle_init s.transitions
  obtain ⟨visits, entered, course⟩ := Search.exists_course hg hroots hidle
  obtain ⟨hlength, hperm⟩ := course.account hg hidle.toInvariant hroots fun a ha =>
    .inl (Search.mem_roots_iff.2 ha)
  -- before the search begins no node has a mark
  have hunmarked : Search.unmarked s.transitions ∅ = s.transitions.entries :=
    List.filter_eq_self.2 fun _ _ => rfl
  refine ⟨visits, entered, course, ?_, fun node => ?_, fun u hu => ?_, fun node hnode => ?_⟩
  · rw [hlength]
    show Search.cost [] + Search.cost (Search.unmarked s.transitions ∅) = _
    rw [hunmarked]
    show 0 + s.transitions.work = _
    rw [Nat.zero_add]
    rfl
  · rw [hperm.count_eq]
    show ((Search.unmarked s.transitions ∅).map Prod.fst).count node = _
    rw [hunmarked]
    exact List.Nodup.count s.transitions.nodup
  · obtain ⟨done, h⟩ := course.invariant hidle.toInvariant u hu
    exact ⟨h.path_eq, h.opened⟩
  · obtain ⟨done, h, hdone⟩ := Search.search_idle hg s.start
    exact (h.finished node).2 (hdone node hnode)

end Story

end Gamebook
