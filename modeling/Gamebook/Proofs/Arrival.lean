import Gamebook.Proofs.Run

/-!
# Where the choices of accepted stories arrive

Validation asks whether a reference names a node.  A turn asks more: it also stays where it is when
the reference names the empty path, even if there is a node.  The two agree on every other path, so
a choice of an accepted story that has a target, or a goto that is applied, arrives exactly where
its effective target points, unless that is a node at the empty path (`turn_arrives`).
-/

namespace Gamebook.Story

variable {story : Story} {allowCycles : Bool} {s t : Session} {asked : Datum} {dice : Dice}

/-- A turn moves to the node that the effective target of its choice names, or stays because the
target names the empty path. -/
theorem Resolved.turn_moves_or_stays (h : story.Resolved) {c : Choice}
    (hc : story.chosen s asked = .ok c) (turn : (story.turn s asked dice).result = .ok t)
    (hgoal : c.fired s.toState dice ≠ [] ∨ c.target ≠ "") :
    aim s c dice ∈ story.nodes.keys ∧ t.node = if aim s c dice = "" then s.node else aim s c dice := by
  obtain ⟨c', hc', -, hnode⟩ := turn_ok turn
  obtain rfl := Except.ok.inj (hc.symm.trans hc')
  have hkey : aim s c dice ∈ story.nodes.keys := by
    rcases h.aim_mem hc dice with ⟨htarget, hfired⟩ | hkey
    · exact absurd htarget (hgoal.resolve_left (not_not_intro hfired))
    · exact hkey
  refine ⟨hkey, ?_⟩
  rw [hnode]
  by_cases hempty : aim s c dice = ""
  · rw [if_pos (.inl hempty), if_pos hempty]
  · rw [if_neg (not_or.2 ⟨hempty, not_not_intro hkey⟩), if_neg hempty]

/-- A turn that succeeds on an accepted story takes a choice.  If a goto of the choice is applied or
the choice has a target, then the effective target names a node, and the turn arrives at that node;
only a node at the empty path is never entered, and the session stays instead.  So a turn falls back
to its own node only if there is nothing to go to or the target names such a node. -/
theorem turn_arrives (h : story.Accepted allowCycles)
    (turn : (story.turn s asked dice).result = .ok t) :
    ∃ c, story.chosen s asked = .ok c ∧
      let aim := Path.resolve (c.effectiveTarget s.toState dice) (Path.group s.node)
      (c.fired s.toState dice ≠ [] ∨ c.target ≠ "" →
        aim ∈ story.nodes.keys ∧ t.node = if aim = "" then s.node else aim) ∧
      (aim = "" ∨ aim ∉ story.nodes.keys →
        c.target = "" ∧ c.fired s.toState dice = [] ∨ aim = "" ∧ "" ∈ story.nodes.keys) := by
  obtain ⟨c, hc, -, -⟩ := turn_ok turn
  refine ⟨c, hc, h.resolved.turn_moves_or_stays hc turn, fun hfallback => ?_⟩
  rcases h.resolved.aim_mem hc dice with nothing | hkey
  · exact .inl nothing
  · have hempty := hfallback.resolve_right (not_not_intro hkey)
    exact .inr ⟨hempty, hempty ▸ hkey⟩

theorem turn_arrives_yard : hall.Accepted false ∧
    (hall.turn (hallSession "house/hall" 0) (.text "leave") (.ofList [])).result =
      .ok (hallSession "yard" 1) ∧
    ∃ c, hall.chosen (hallSession "house/hall" 0) (.text "leave") = .ok c ∧ c.target ≠ "" ∧
      (hallSession "yard" 1).node = Path.resolve c.target (Path.group "house/hall") := by
  have turn : (hall.turn (hallSession "house/hall" 0) (.text "leave") (.ofList [])).result =
      .ok (hallSession "yard" 1) := rfl
  obtain ⟨c, hc, harrives, -⟩ := turn_arrives hall_accepted turn
  have leave : hall.chosen (hallSession "house/hall" 0) (.text "leave") =
      .ok ⟨"leave", "", "../yard", [], [], none⟩ := rfl
  obtain rfl := Except.ok.inj (leave.symm.trans hc)
  have target : "../yard" ≠ "" := by decide
  have hnamed : Path.resolve "../yard" (Path.group "house/hall") ≠ "" := by decide
  refine ⟨hall_accepted, turn, _, hc, target, ?_⟩
  exact (harrives (.inr target)).2.trans (if_neg hnamed)

/-- A story with a node at the empty path, to which a choice of the hall leads. -/
def cellar : Story where
  kind := ""
  start := "hall"
  flags := ∅
  resources := ∅
  nodes := .ofEntries [
    ("hall", ⟨"hall", "", [⟨"down", "", "/", [], [], none⟩]⟩), ("", ⟨"", "", []⟩)]

/-- A document of the story `cellar`. -/
def cellarDocument : Datum :=
  .object [("startNode", .text "hall"), ("nodes", .object [
    ("hall", .object [("choices", .list [
      .object [("id", .text "down"), ("target", .text "/")]])]),
    ("", .object [])])]

/-- The cellar is accepted, and its choice has a target that names a node; still the turn does not
arrive there. -/
theorem cellar_not_entered : cellar.Accepted false ∧
    (∃ c, cellar.chosen (cellar.begin {}) (.text "down") = .ok c ∧ c.target ≠ "" ∧
      c.fired (cellar.begin {}).toState (.ofList []) = [] ∧
      Path.resolve c.target (Path.group "hall") = "" ∧ "" ∈ cellar.nodes.keys) ∧
    ∃ t, (cellar.turn (cellar.begin {}) (.text "down") (.ofList [])).result = .ok t ∧
      t.node = "hall" := by
  have h : load Schema.checker cellarDocument false [] = .ok cellar := rfl
  exact ⟨.document h, ⟨_, rfl, by decide, rfl, rfl, by decide⟩, _, rfl, rfl⟩

end Gamebook.Story
