import Gamebook.Proofs.Fallible
import Gamebook.Proofs.Graph
import Gamebook.Session.Turn

/-!
# Where choices lead

The transitions of a story are read off its choices without playing them.  Here they are compared
with the turns of sessions, in which the gotos that are applied depend on the state and on the dice.

`fired` lists the gotos that effects apply, so the effective target of a choice is that of the last
of them, or else its own.  It is one of the destinations that are read off the choice
(`effectiveTarget_mem_destinations`), and so a turn follows an edge of the transitions or stays at
its node (`turn_within_transitions`).
-/

namespace Gamebook

namespace Effect

/-! ## The gotos that are applied -/

mutual

/-- The targets of the gotos that applying an effect comes to, in order. -/
def fired : Effect → Draft → Dice → List String
  | .goto target, _, _ => [target]
  | .oneOf members, d, dice =>
    if members.length = 0 then []
    else
      let throw := dice.throwSides members.length
      firedNth members throw.1 d throw.2
  | .provided condition member, d, dice =>
    match condition.evaluate d.toState with
    | .ok true => fired member d dice
    | _ => []
  | _, _, _ => []

/-- The targets for the effect at a position of a list, if a note of it can be written. -/
def firedNth : List Effect → Nat → Draft → Dice → List String
  | [], _, _, _ => []
  | e :: _, 0, d, dice => if e.toDatum.hasTooLong then [] else fired e d dice
  | _ :: es, n + 1, d, dice => firedNth es n d dice

end

/-- The targets for effects in order, up to the first effect that fails. -/
def firedAll : List Effect → Draft → Dice → List String
  | [], _, _ => []
  | e :: es, d, dice =>
    fired e d dice ++
      match apply e d dice with
      | ⟨d, dice, none⟩ => firedAll es d dice
      | _ => []

theorem target_updateResource (d : Draft) (dice : Dice) (key : String)
    (calculate : Number → Except RangeError Number) :
    (d.updateResource dice key calculate).draft.target = d.target := by
  unfold Draft.updateResource
  split <;> rfl

mutual

/-- An effect leaves the draft with the target of the last goto that is applied. -/
theorem target_apply : (e : Effect) → (d : Draft) → (dice : Dice) →
    (apply e d dice).draft.target = (fired e d dice).getLast?.or d.target
  | .goto _, _, _ => rfl
  | .oneOf members, d, dice => by
    rw [apply, fired]
    split
    · rfl
    · exact target_applyNth members _ d _
  | .provided condition member, d, dice => by
    rw [apply, fired]
    cases condition.evaluate d.toState with
    | error e => rfl
    | ok holds =>
      cases holds with
      | true => exact target_apply member d dice
      | false => rfl
  | .addResource .., d, dice | .multiplyResource .., d, dice => target_updateResource d dice _ _
  | .setFlag .., _, _ | .setResource .., _, _ | .setVariable .., _, _ | .verbatim _, _, _ => rfl

theorem target_applyNth : (es : List Effect) → (n : Nat) → (d : Draft) → (dice : Dice) →
    (applyNth es n d dice).draft.target = (firedNth es n d dice).getLast?.or d.target
  | [], _, _, _ => rfl
  | e :: _, 0, d, dice => by
    rw [applyNth, firedNth]
    split
    · rfl
    · exact target_apply e d dice
  | _ :: es, n + 1, d, dice => target_applyNth es n d dice

end

theorem target_applyAll (es : List Effect) : ∀ (d : Draft) (dice : Dice),
    (applyAll es d dice).draft.target = (firedAll es d dice).getLast?.or d.target := by
  induction es with
  | nil => exact fun d dice => rfl
  | cons e es ih =>
    intro d dice
    have h := target_apply e d dice
    rcases ha : apply e d dice with ⟨d', dice', _ | error⟩ <;> rw [ha] at h
    · simp only [applyAll, firedAll, ha]
      rw [ih, h, List.getLast?_append, Option.or_assoc]
    · simp only [applyAll, firedAll, ha, List.append_nil]
      exact h

mutual

theorem fired_subset_gotos : (e : Effect) → (d : Draft) → (dice : Dice) →
    fired e d dice ⊆ gotos e
  | .goto _, _, _ => fun _ h => h
  | .oneOf members, d, dice => by
    rw [fired, gotos]
    split
    · exact List.nil_subset _
    · exact firedNth_subset_gotosOfAll members _ d _
  | .provided condition member, d, dice => by
    rw [fired, gotos]
    split
    · exact fired_subset_gotos member d dice
    · exact List.nil_subset _
  | .setFlag .., _, _ | .addResource .., _, _ | .multiplyResource .., _, _
  | .setResource .., _, _ | .setVariable .., _, _ | .verbatim _, _, _ => List.nil_subset _

theorem firedNth_subset_gotosOfAll : (es : List Effect) → (n : Nat) → (d : Draft) →
    (dice : Dice) → firedNth es n d dice ⊆ gotosOfAll es
  | [], _, _, _ => List.nil_subset _
  | e :: _, 0, d, dice => by
    rw [firedNth]
    split
    · exact List.nil_subset _
    · exact List.Subset.trans (fired_subset_gotos e d dice) (List.subset_append_left _ _)
  | _ :: es, n + 1, d, dice =>
    List.Subset.trans (firedNth_subset_gotosOfAll es n d dice) (List.subset_append_right _ _)

end

theorem firedAll_subset_gotosOfAll (es : List Effect) : ∀ (d : Draft) (dice : Dice),
    firedAll es d dice ⊆ gotosOfAll es := by
  induction es with
  | nil => exact fun d dice => List.nil_subset _
  | cons e es ih =>
    intro d dice
    rw [firedAll, gotosOfAll]
    refine List.append_subset.2 ⟨?_, ?_⟩
    · exact List.subset_append_of_subset_left _ (fired_subset_gotos e d dice)
    · split
      · exact List.subset_append_of_subset_right _ (ih _ _)
      · exact List.nil_subset _

/-- A goto outside other effects is applied if the effects succeed. -/
theorem firedAll_ne_nil (es : List Effect) : ∀ (d : Draft) (dice : Dice),
    (∃ e ∈ es, e.target?.isSome) → (applyAll es d dice).error = none → firedAll es d dice ≠ [] := by
  induction es with
  | nil => simp
  | cons e es ih =>
    rintro d dice ⟨e', he', htarget⟩ h
    rcases ha : apply e d dice with ⟨d', dice', _ | error⟩
    · simp only [applyAll, ha] at h
      simp only [firedAll, ha]
      rcases List.mem_cons.1 he' with rfl | he'
      · cases e' with
        | goto => simp [fired]
        | _ => cases htarget
      · exact List.append_ne_nil_of_right_ne_nil _ (ih d' dice' ⟨e', he', htarget⟩ h)
    · simp [applyAll, ha] at h

theorem getLast?_getD_append (as bs : List String) (target : String) :
    (as ++ bs).getLast?.getD target = bs.getLast?.getD (as.getLast?.getD target) := by
  rw [List.getLast?_append]
  cases bs.getLast? <;> rfl

/-- Effects that succeed come to a goto outside other effects, so the last of these is applied.
Only a goto inside another effect can be applied after it. -/
theorem effective_mem (es : List Effect) : ∀ (d : Draft) (dice : Dice) (target : String),
    (applyAll es d dice).error = none →
    (firedAll es d dice).getLast?.getD target ∈
      (es.filterMap target?).getLast?.getD target ::
        gotosOfAll (es.filter fun e => e.target?.isNone) := by
  induction es with
  | nil => exact fun d dice target _ => List.mem_cons_self
  | cons e es ih =>
    intro d dice target h
    rcases ha : apply e d dice with ⟨d', dice', _ | error⟩
    · simp only [applyAll, ha] at h
      have ih := ih d' dice' ((fired e d dice).getLast?.getD target) h
      simp only [firedAll, ha, getLast?_getD_append]
      cases ht : e.target? with
      | some t =>
        cases e with
        | goto => simpa [target?, fired, List.getLast?_cons] using ih
        | _ => cases ht
      | none =>
        rw [List.filterMap_cons_none ht, List.filter_cons_of_pos (by rw [ht]; rfl), gotosOfAll]
        rcases List.mem_cons.1 ih with ih | ih
        · rw [ih]
          cases (es.filterMap target?).getLast? with
          | some t => exact List.mem_cons_self
          | none =>
            cases hf : (fired e d dice).getLast? with
            | some t =>
              have hg := fired_subset_gotos e d dice (List.mem_of_getLast? hf)
              exact .tail _ (List.mem_append_left _ hg)
            | none => exact List.mem_cons_self
        · exact .tail _ (List.mem_append_right _ ih)
    · simp [applyAll, ha] at h

end Effect

/-! ## Turns -/

namespace Choice

/-- The targets of the gotos that taking a choice comes to, in order. -/
def fired (c : Choice) (s : State) (dice : Dice) : List String :=
  Effect.firedAll c.effects { s with target := none } dice

/-- The target of the last goto that is applied, or else of the choice. -/
def effectiveTarget (c : Choice) (s : State) (dice : Dice) : String :=
  (c.fired s dice).getLast?.getD c.target

/-- Whether taking a choice succeeds. -/
def Succeeds (c : Choice) (s : State) (dice : Dice) : Prop :=
  (Effect.applyAll c.effects { s with target := none } dice).error = none

theorem fired_subset (c : Choice) (s : State) (dice : Dice) : c.fired s dice ⊆ c.gotos :=
  Effect.firedAll_subset_gotosOfAll c.effects _ dice

theorem effectiveTarget_mem_destinations {c : Choice} {s : State} {dice : Dice}
    (h : c.Succeeds s dice) : c.effectiveTarget s dice ∈ c.destinations :=
  Effect.effective_mem c.effects _ dice c.target h

end Choice

namespace Story

variable {story : Story} {s t : Session} {asked : Datum} {dice : Dice} {c : Choice}

/-- The path that the effective target of a choice names at the node of a session. -/
def aim (s : Session) (c : Choice) (dice : Dice) : String :=
  Path.resolve (c.effectiveTarget s.toState dice) (Path.group s.node)

theorem chosenAmong_eq_ok_iff {available : List Choice} {node : Node} {path : String} :
    chosenAmong available node path asked = .ok c ↔
      node.asked? asked = some c ∧ ∃ d ∈ available, d.id = c.id := by
  unfold chosenAmong
  cases node.asked? asked with
  | none =>
    simp only [reduceCtorEq, false_and, iff_false]
    split <;> nofun
  | some d =>
    simp only [List.mem_map, Option.some.injEq]
    constructor
    · intro h
      split at h
      · next hid =>
        cases h
        exact ⟨rfl, hid⟩
      · cases h
    · rintro ⟨rfl, hid⟩
      exact if_pos hid

/-- A choice is chosen if it is the first one that is asked for and some choice with its id is
available. -/
theorem chosen_eq_ok_iff : story.chosen s asked = .ok c ↔
    ∃ node available, story.node? s.node = some node ∧ availableAt node s.toState = .ok available ∧
      node.asked? asked = some c ∧ ∃ d ∈ available, d.id = c.id := by
  unfold chosen
  cases story.node? s.node with
  | none => simp
  | some node =>
    simp only [Option.some.injEq, exists_and_left, exists_eq_left']
    cases availableAt node s.toState with
    | error e => simp
    | ok available => simp [chosenAmong_eq_ok_iff]

/-- A turn that succeeds takes a choice of the node. -/
theorem chosen_mem (h : story.chosen s asked = .ok c) :
    ∃ node, story.node? s.node = some node ∧ c ∈ node.choices := by
  obtain ⟨node, _, hnode, -, hasked, -⟩ := chosen_eq_ok_iff.1 h
  refine ⟨node, hnode, ?_⟩
  cases asked with
  | text id => exact List.mem_of_find?_eq_some hasked
  | _ => cases hasked

/-- What a turn does when it succeeds: it takes an available choice, and moves to the path that the
effective target names if the story has a node there. -/
theorem turn_ok (h : (story.turn s asked dice).result = .ok t) :
    ∃ c, story.chosen s asked = .ok c ∧ c.Succeeds s.toState dice ∧
      t.node = if aim s c dice = "" ∨ aim s c dice ∉ story.nodes.keys then s.node
        else aim s c dice := by
  unfold turn at h
  cases hc : story.chosen s asked with
  | error e => simp [hc] at h
  | ok c =>
    simp only [hc] at h
    have htarget := Effect.target_applyAll c.effects { s.toState with target := none } dice
    rcases ha : Effect.applyAll c.effects { s.toState with target := none } dice with
      ⟨draft, dice', _ | error⟩
    · rw [ha] at h htarget
      cases h
      refine ⟨c, rfl, by rw [Choice.Succeeds, ha], ?_⟩
      have haim : Path.resolve (draft.target.getD c.target) (Path.group s.node) = aim s c dice := by
        rw [htarget, Option.or_none]
        rfl
      show story.destination s.node c draft.target = _
      simp [destination, haim, ← Table.contains_iff]
    · rw [ha] at h
      cases h

/-- A turn that succeeds follows an edge to the path that the effective target names, or stays at
its node, since the effective target names no node. -/
theorem turn_moves (h : (story.turn s asked dice).result = .ok t) :
    ∃ c, story.chosen s asked = .ok c ∧ c.Succeeds s.toState dice ∧
      (aim s c dice ≠ "" ∧ story.transitions.Edge s.node t.node ∧ t.node = aim s c dice ∨
        (aim s c dice = "" ∨ aim s c dice ∉ story.nodes.keys) ∧ t.node = s.node) := by
  obtain ⟨c, hc, hs, ht⟩ := turn_ok h
  refine ⟨c, hc, hs, ?_⟩
  split at ht
  · next stays => exact .inr ⟨stays, ht⟩
  · next moves =>
    rw [not_or, not_not] at moves
    refine .inl ⟨moves.1, ?_, ht⟩
    obtain ⟨node, hnode, hmem⟩ := chosen_mem hc
    refine edge_transitions_iff.2 ⟨node, hnode, c, hmem, mem_choiceEdges_iff.2 ?_⟩
    rw [ht]
    exact ⟨moves.2, _, Choice.effectiveTarget_mem_destinations hs, rfl⟩

/-- The transitions of a story cover its turns: the next node is a successor of the node, or it is
the same node and the effective target of the choice names the empty path or no node. -/
theorem turn_within_transitions (h : (story.turn s asked dice).result = .ok t) :
    t.node ∈ story.transitions.successors s.node ∨
      t.node = s.node ∧ ∃ c, story.chosen s asked = .ok c ∧
        let aim := Path.resolve (c.effectiveTarget s.toState dice) (Path.group s.node)
        aim = "" ∨ aim ∉ story.nodes.keys := by
  obtain ⟨c, hc, -, ⟨-, hedge, -⟩ | ⟨stays, ht⟩⟩ := turn_moves h
  · exact .inl hedge
  · exact .inr ⟨ht, c, hc, stays⟩

/-- A story whose first node, which is in a group, has a choice to wait, with neither a target nor a goto
that is certain to be applied, and a choice to leave.  Both refer to a node outside of the group. -/
def hall : Story where
  kind := ""
  start := "house/hall"
  flags := ∅
  resources := ∅
  nodes := .ofEntries [
    ("house/hall", ⟨"house/hall", "", [
      ⟨"wait", "", "", [], [.provided (.flagIs "open" true) (.goto "../yard")], none⟩,
      ⟨"leave", "", "../yard", [], [], none⟩]⟩),
    ("yard", ⟨"yard", "", []⟩)]

/-- The session at a node of the hall after a number of turns. -/
def hallSession (node : String) (time : Nat) : Session :=
  { hall.begin {} with node := node, time := .number (.int time) }

theorem turn_within_transitions_hall :
    (hall.turn (hallSession "house/hall" 0) (.text "leave") (.ofList [])).result =
      .ok (hallSession "yard" 1) ∧ "yard" ∈ hall.transitions.successors "house/hall" := by
  have turn : (hall.turn (hallSession "house/hall" 0) (.text "leave") (.ofList [])).result =
      .ok (hallSession "yard" 1) := rfl
  refine ⟨turn, (turn_within_transitions turn).resolve_right fun h => ?_⟩
  exact absurd h.1 (by decide)

end Story

end Gamebook
