import Gamebook.Schema
import Gamebook.Proofs.Accepted
import Gamebook.Proofs.Destination

/-!
# Runs of accepted stories

A run is a sequence of turns that succeed, each from the session that the one before led to.  The
dice of every turn are arbitrary.

A turn is idle if the effective target of its choice names the empty path, which stands for no
destination; the session then stays at its node.  In a story that is accepted without cycles every
other turn follows an edge of an acyclic graph, so a run comes back to a node only by staying there
(`run_revisits_by_idling`).
-/

namespace Gamebook

/-- A turn of a run: the session before it, what is asked for, the dice, and the session after
it. -/
structure Played where
  before : Session
  asked : Datum
  dice : Dice
  after : Session

namespace Story

/-- Turns that succeed one after the other, from a session. -/
inductive Run (story : Story) : Session → List Played → Prop where
  | nil {s : Session} : Run story s []
  | cons {s t : Session} {asked : Datum} {dice : Dice} {rest : List Played}
      (turn : (story.turn s asked dice).result = .ok t) (run : Run story t rest) :
    Run story s (⟨s, asked, dice, t⟩ :: rest)

/-- The snapshots of a run: the session that it begins with, and the ones after its turns. -/
def snapshots (s : Session) (turns : List Played) : List Session :=
  s :: turns.map Played.after

/-- Whether the effective target of the choice that is taken names the empty path. -/
def idle (story : Story) (p : Played) : Bool :=
  match story.chosen p.before p.asked with
  | .ok c => aim p.before c p.dice == ""
  | .error _ => false

/-- Every choice has a target or a goto outside other effects. -/
def Directed (s : Story) : Prop :=
  ∀ key node, s.node? key = some node →
    ∀ c ∈ node.choices, c.target ≠ "" ∨ ∃ e ∈ c.effects, e.target?.isSome

variable {story : Story}

/-! ## One turn -/

/-- The effective target of a choice names a node unless there is nothing to go to: the choice has
no target, and no goto is applied. -/
theorem Resolved.aim_mem (h : story.Resolved) {s : Session} {asked : Datum} {c : Choice}
    (hc : story.chosen s asked = .ok c) (dice : Dice) :
    c.target = "" ∧ c.fired s.toState dice = [] ∨ aim s c dice ∈ story.nodes.keys := by
  obtain ⟨node, hnode, hmem⟩ := chosen_mem hc
  unfold aim Choice.effectiveTarget
  cases hf : (c.fired s.toState dice).getLast? with
  | some target =>
    exact .inr (h.goto hnode hmem (c.fired_subset s.toState dice (List.mem_of_getLast? hf)))
  | none =>
    by_cases ht : c.target = ""
    · exact .inl ⟨ht, List.getLast?_eq_none_iff.1 hf⟩
    · exact .inr (h.target hnode hmem ht)

/-- An idle turn has nothing to go to, or goes to a node at the empty path. -/
theorem Resolved.idle_cause (h : story.Resolved) {p : Played} (hp : story.idle p = true) :
    (∃ c, story.chosen p.before p.asked = .ok c ∧ c.target = "" ∧
      c.fired p.before.toState p.dice = []) ∨ "" ∈ story.nodes.keys := by
  unfold idle at hp
  split at hp
  · next c hc =>
    rw [beq_iff_eq] at hp
    rcases h.aim_mem hc p.dice with ⟨ht, hf⟩ | hkey
    · exact .inl ⟨c, hc, ht, hf⟩
    · exact .inr (hp ▸ hkey)
  · cases hp

/-- A turn of a story whose references resolve stays if it is idle, and follows an edge
otherwise. -/
theorem Resolved.turn_cases (h : story.Resolved) {s t : Session} {asked : Datum} {dice : Dice}
    (ht : (story.turn s asked dice).result = .ok t) :
    story.idle ⟨s, asked, dice, t⟩ = true ∧ t.node = s.node ∨
      story.idle ⟨s, asked, dice, t⟩ = false ∧ story.transitions.Edge s.node t.node := by
  obtain ⟨c, hc, -, ⟨hne, hedge, -⟩ | ⟨stays, hnode⟩⟩ := turn_moves ht
  · exact .inr ⟨by simp [idle, hc, hne], hedge⟩
  · have haim : aim s c dice = "" := by
      rcases stays with stays | missing
      · exact stays
      · obtain ⟨htarget, hf⟩ := (h.aim_mem hc dice).resolve_right missing
        simp [aim, Choice.effectiveTarget, hf, htarget]
    exact .inl ⟨by simp [idle, hc, haim], hnode⟩

theorem Resolved.not_idle (h : story.Resolved) (hempty : "" ∉ story.nodes.keys)
    (hdirected : story.Directed) {s t : Session} {asked : Datum} {dice : Dice}
    (ht : (story.turn s asked dice).result = .ok t) : story.idle ⟨s, asked, dice, t⟩ = false := by
  rw [← Bool.not_eq_true]
  intro hidle
  obtain ⟨c, hc, htarget, hfired⟩ := (h.idle_cause hidle).resolve_right hempty
  obtain ⟨c', hc', hsucceeds, -⟩ := turn_ok ht
  obtain rfl := Except.ok.inj (hc.symm.trans hc')
  obtain ⟨node, hnode, hmem⟩ := chosen_mem hc
  have hgoto := (hdirected _ node hnode c hmem).resolve_left (not_not_intro htarget)
  exact Effect.firedAll_ne_nil c.effects _ dice hgoto hsucceeds hfired

/-! ## Runs -/

/-- A run reaches a snapshot by idling at the node that it begins at, or along at least one edge. -/
theorem Run.reaches (h : story.Resolved) {s t : Session} {turns : List Played}
    (run : story.Run s turns) {j : Nat} (ht : (snapshots s turns)[j]? = some t) :
    (∀ p ∈ turns.take j, story.idle p = true) ∧ t.node = s.node ∨
      Relation.TransGen story.transitions.Edge s.node t.node := by
  induction run generalizing j with
  | nil =>
    cases j with
    | zero =>
      cases ht
      exact .inl ⟨List.forall_mem_nil _, rfl⟩
    | succ j => cases ht
  | @cons s u asked dice rest turn run ih =>
    cases j with
    | zero =>
      cases ht
      exact .inl ⟨List.forall_mem_nil _, rfl⟩
    | succ j =>
      rcases h.turn_cases turn with ⟨hidle, hnode⟩ | ⟨-, hedge⟩
      · rcases ih ht with ⟨hrest, htu⟩ | hrest
        · refine .inl ⟨?_, htu.trans hnode⟩
          rw [List.take_succ_cons]
          exact List.forall_mem_cons.2 ⟨hidle, hrest⟩
        · exact .inr (hnode ▸ hrest)
      · rcases ih ht with ⟨-, htu⟩ | hrest
        · exact .inr (htu ▸ .single hedge)
        · exact .inr (.head hedge hrest)

/-- In a graph without cycles, all turns between two snapshots at one node are idle. -/
theorem Run.idle_between (h : story.Resolved) (hacyclic : story.transitions.Acyclic)
    {s t u : Session} {turns : List Played} (run : story.Run s turns) {i j : Nat} (hij : i ≤ j)
    (ht : (snapshots s turns)[i]? = some t)
    (hu : (snapshots s turns)[j]? = some u) (hnode : t.node = u.node) :
    ∀ p ∈ (turns.take j).drop i, story.idle p = true := by
  induction run generalizing i j with
  | nil => simp
  | @cons s s' asked dice rest turn run ih =>
    cases i with
    | zero =>
      cases ht
      rcases (Run.cons turn run).reaches h hu with ⟨hidle, -⟩ | hcycle
      · exact hidle
      · exact absurd (hnode ▸ hcycle) (hacyclic _)
    | succ i =>
      obtain ⟨j, rfl⟩ : ∃ k, j = k + 1 := ⟨j - 1, by omega⟩
      rw [List.take_succ_cons, List.drop_succ_cons]
      exact ih (by omega) ht hu

/-- The nodes to which the turns that are not idle lead form a chain of the transitions. -/
theorem Run.isChain (h : story.Resolved) {s : Session} {turns : List Played}
    (run : story.Run s turns) :
    (s.node :: (turns.filter fun p => !story.idle p).map fun p => p.after.node).IsChain
      story.transitions.Edge := by
  induction run with
  | nil => exact List.isChain_singleton _
  | cons turn run ih =>
    rcases h.turn_cases turn with ⟨hidle, hnode⟩ | ⟨hmoves, hedge⟩
    · rw [List.filter_cons_of_neg (by simp [hidle]), ← hnode]
      exact ih
    · rw [List.filter_cons_of_pos (by simp [hmoves]), List.map_cons]
      exact List.isChain_cons_cons.2 ⟨hedge, ih⟩

/-- A run that takes a turn begins at a node of the story. -/
theorem Run.node_mem {s : Session} {turns : List Played} (run : story.Run s turns) :
    turns = [] ∨ s.node ∈ story.nodes.keys := by
  cases run with
  | nil => exact .inl rfl
  | cons turn run =>
    obtain ⟨c, hc, -⟩ := turn_ok turn
    obtain ⟨node, hnode, -⟩ := chosen_mem hc
    exact .inr (Table.mem_keys_iff.2 ⟨node, hnode⟩)

/-- There are fewer turns that are not idle than nodes. -/
theorem Run.moves_lt_size (h : story.Resolved) (hacyclic : story.transitions.Acyclic) {s : Session}
    {turns : List Played} (run : story.Run s turns) :
    (turns.filter fun p => !story.idle p).length + 1 ≤ story.nodes.size := by
  have hsize : story.transitions.size = story.nodes.size := List.length_map ..
  rcases run.node_mem with rfl | hs
  · obtain ⟨e, he, -⟩ := List.mem_map.1 h.start
    exact List.length_pos_of_mem he
  · rw [← hsize]
    have hkeys : s.node ∈ story.transitions.keys := by
      unfold transitions
      rwa [Table.keys_mapWithKey]
    simpa using hacyclic.length_le_size story.transitions_closed hkeys (run.isChain h)

/-- Something that holds of every turn that succeeds holds of all turns of a run. -/
theorem Run.forall {P : Played → Prop} {s : Session} {turns : List Played}
    (run : story.Run s turns)
    (hP : ∀ s asked dice t, (story.turn s asked dice).result = .ok t → P ⟨s, asked, dice, t⟩) :
    ∀ p ∈ turns, P p := by
  induction run with
  | nil => exact List.forall_mem_nil _
  | cons turn run ih => exact List.forall_mem_cons.2 ⟨hP _ _ _ _ turn, ih⟩

/-- In a story that is accepted without cycles, a run comes back to a node only by idling there.  A
turn idles only if its choice has no target and no goto is applied, or if there is a node at the
empty path.  There are fewer other turns than nodes.  So if every choice has a target or a goto
outside other effects, and no node is at the empty path, then no node is visited twice. -/
theorem run_revisits_by_idling (h : story.Accepted false) {saved : SavedPosition}
    {turns : List Played} (run : story.Run (story.begin saved) turns) :
    (∀ (i j : Nat) (s t : Session), i ≤ j → (snapshots (story.begin saved) turns)[i]? = some s →
      (snapshots (story.begin saved) turns)[j]? = some t → s.node = t.node →
        ∀ p ∈ (turns.take j).drop i, story.idle p = true) ∧
    (∀ p ∈ turns, story.idle p = true → p.after.node = p.before.node ∧
      ((∃ c, story.chosen p.before p.asked = .ok c ∧ c.target = "" ∧
        c.fired p.before.toState p.dice = []) ∨ "" ∈ story.nodes.keys)) ∧
    (turns.filter fun p => !story.idle p).length + 1 ≤ story.nodes.size ∧
    (story.Directed → "" ∉ story.nodes.keys →
      ((snapshots (story.begin saved) turns).map fun s => s.node).Nodup ∧
        turns.length + 1 ≤ story.nodes.size) := by
  have hr := h.resolved
  have hmoves := run.moves_lt_size hr h.acyclic
  refine ⟨fun i j s t hij hs ht hnode => run.idle_between hr h.acyclic hij hs ht hnode,
    fun p hp hidle => ⟨?_, hr.idle_cause hidle⟩, hmoves, fun hdirected hempty => ?_⟩
  · refine run.forall (P := fun p => story.idle p = true → p.after.node = p.before.node) ?_ p hp hidle
    intro s asked dice t turn hidle
    rcases hr.turn_cases turn with ⟨-, hnode⟩ | ⟨hmoves, -⟩
    · exact hnode
    · rw [hidle] at hmoves
      cases hmoves
  · -- no turn is dropped from the chain of nodes
    have hall : (turns.filter fun p => !story.idle p) = turns := by
      rw [List.filter_eq_self]
      exact run.forall fun s asked dice t turn => by simp [hr.not_idle hempty hdirected turn]
    have hchain := run.isChain hr
    rw [hall] at hmoves hchain
    refine ⟨?_, hmoves⟩
    rw [snapshots, List.map_cons, List.map_map]
    exact h.acyclic.nodup_of_isChain hchain

/-- A document of the story `hall`. -/
def hallDocument : Datum :=
  .object [("startNode", .text "house/hall"), ("nodes", .object [
    ("house/hall", .object [("choices", .list [
      .object [("id", .text "wait"), ("effects", .list [.object [
        ("type", .text "conditionalEffect"),
        ("condition", .object [("type", .text "flag"), ("key", .text "open")]),
        ("effect", .object [("type", .text "goto"), ("target", .text "../yard")])]])],
      .object [("id", .text "leave"), ("target", .text "../yard")]])]),
    ("yard", .object [])])]

theorem hall_accepted : hall.Accepted false := by
  have h : load Schema.checker hallDocument false [] = .ok hall := rfl
  exact .document h

/-- Waiting twice and leaving. -/
def hallTurns : List Played :=
  [⟨hallSession "house/hall" 0, .text "wait", .ofList [], hallSession "house/hall" 1⟩,
    ⟨hallSession "house/hall" 1, .text "wait", .ofList [], hallSession "house/hall" 2⟩,
    ⟨hallSession "house/hall" 2, .text "leave", .ofList [], hallSession "yard" 3⟩]

theorem hall_run : hall.Run (hall.begin {}) hallTurns :=
  .cons (s := hallSession "house/hall" 0) rfl (.cons rfl (.cons rfl .nil))

/-- The hall is accepted, and still a run stays in it and takes more turns than there are nodes. -/
theorem hall_revisited : hall.Accepted false ∧ hall.Run (hall.begin {}) hallTurns ∧
    ¬ ((snapshots (hall.begin {}) hallTurns).map fun s => s.node).Nodup ∧
    ¬ hallTurns.length + 1 ≤ hall.nodes.size :=
  ⟨hall_accepted, hall_run, by decide, by decide⟩

theorem run_revisits_by_idling_hall : hall.Accepted false ∧ hall.Run (hall.begin {}) hallTurns ∧
    hallTurns.map hall.idle = [true, true, false] ∧
    (hallTurns.filter fun p => !hall.idle p).length + 1 ≤ hall.nodes.size :=
  ⟨hall_accepted, hall_run, by decide, (run_revisits_by_idling hall_accepted hall_run).2.2.1⟩

end Story

end Gamebook
