import Gamebook.Proofs.Destination
import Gamebook.Proofs.Search

/-!
# Where choices may lead

The transitions of a story count every goto inside another effect, wherever it stands.  Here they are
compared with the ways in which the effects of a choice can be run at all: a random effect picks any of
its members, and a conditional effect applies its member or does not, whatever the state is.  What a
turn does is one of these ways (`Effect.fired_mem_ways`, `Effect.firedAll_mem_waysOfAll`).

An effect that comes to a goto in every way overrides all references before it, so exactly those
references can decide that have no such effect behind them (`Choice.mayLead_iff`).  The transitions
list all destinations that are possible in this sense, and no others if the choice is orderly: nothing
overrides a goto inside another effect, and no random effect overrides the rest for certain
(`Story.choiceEdges_possible`).  Otherwise a story can be refused for a cycle in which no way of running
its choices leads (`Story.porch_accused`).
-/

namespace Gamebook

namespace Effect

/-! ## Ways of running effects -/

mutual

/-- The ways of running an effect, each as the targets of the gotos that it comes to, in order. -/
def ways : Effect → List (List String)
  | .goto target => [[target]]
  | .oneOf members => if members.length = 0 then [[]] else waysOfAny members
  | .provided _ member => [] :: ways member
  | _ => [[]]

/-- The ways of running any one of several effects. -/
def waysOfAny : List Effect → List (List String)
  | [] => []
  | e :: es => ways e ++ waysOfAny es

end

/-- The ways of running effects in order. -/
def waysOfAll : List Effect → List (List String)
  | [] => [[]]
  | e :: es => (ways e).flatMap fun way => (waysOfAll es).map (way ++ ·)

/-- Every way of running the effect comes to a goto. -/
def Certain (e : Effect) : Prop :=
  [] ∉ ways e

instance (e : Effect) : Decidable (Certain e) :=
  inferInstanceAs (Decidable ([] ∉ ways e))

/-- The effects have a goto, at whatever depth, with no certain effect behind it. -/
def Prevails (es : List Effect) (target : String) : Prop :=
  ∃ e after, e :: after <:+ es ∧ target ∈ gotos e ∧ ∀ e' ∈ after, ¬ Certain e'

variable {e : Effect} {es : List Effect} {way : List String} {target reference : String}

mutual

theorem ways_ne_nil : (e : Effect) → ways e ≠ []
  | .goto _ => List.cons_ne_nil _ _
  | .oneOf members => by
    rw [ways]
    split
    · exact List.cons_ne_nil _ _
    · next hmembers => exact waysOfAny_ne_nil members hmembers
  | .provided _ _ => List.cons_ne_nil _ _
  | .setFlag .. | .addResource .. | .multiplyResource .. | .setResource .. | .setVariable ..
  | .verbatim _ => by simp [ways]

theorem waysOfAny_ne_nil : (es : List Effect) → es.length ≠ 0 → waysOfAny es ≠ []
  | [], h => absurd rfl h
  | e :: _, _ => by
    rw [waysOfAny]
    exact List.append_ne_nil_of_left_ne_nil (ways_ne_nil e) _

end

theorem exists_mem_ways (e : Effect) : ∃ way, way ∈ ways e :=
  List.exists_mem_of_ne_nil _ (ways_ne_nil e)

mutual

/-- What applying an effect comes to is one of its ways, if it succeeds. -/
theorem fired_mem_ways : (e : Effect) → (d : Draft) → (dice : Dice) →
    (apply e d dice).error = none → fired e d dice ∈ ways e
  | .goto _, _, _, _ => by simp [fired, ways]
  | .oneOf members, d, dice, h => by
    rw [apply] at h
    rw [fired, ways]
    split
    · exact List.mem_singleton_self _
    · next hmembers =>
      rw [if_neg hmembers] at h
      have hthrow : dice.face dice.thrown % members.length < members.length :=
        Nat.mod_lt _ (Nat.pos_of_ne_zero hmembers)
      exact firedNth_mem_waysOfAny members _ d _ hthrow h
  | .provided condition member, d, dice, h => by
    rw [apply] at h
    rw [fired, ways]
    split
    · next hholds =>
      rw [hholds] at h
      exact .tail _ (fired_mem_ways member d dice h)
    · exact .head _
  | .setFlag .., _, _, _ | .addResource .., _, _, _ | .multiplyResource .., _, _, _
  | .setResource .., _, _, _ | .setVariable .., _, _, _ | .verbatim _, _, _, _ => by
    simp [fired, ways]

theorem firedNth_mem_waysOfAny : (es : List Effect) → (n : Nat) → (d : Draft) → (dice : Dice) →
    n < es.length → (applyNth es n d dice).error = none → firedNth es n d dice ∈ waysOfAny es
  | [], n, _, _, hn, _ => absurd hn (Nat.not_lt_zero n)
  | e :: _, 0, d, dice, _, h => by
    rw [applyNth] at h
    rw [firedNth, waysOfAny]
    split
    · next hlong =>
      rw [if_pos hlong] at h
      cases h
    · next hshort =>
      rw [if_neg hshort] at h
      exact List.mem_append_left _ (fired_mem_ways e d dice h)
  | _ :: es, n + 1, d, dice, hn, h => by
    rw [firedNth, waysOfAny]
    exact List.mem_append_right _ (firedNth_mem_waysOfAny es n d dice (Nat.lt_of_succ_lt_succ hn) h)

end

theorem mem_waysOfAll_cons_iff : way ∈ waysOfAll (e :: es) ↔
    ∃ first ∈ ways e, ∃ rest ∈ waysOfAll es, first ++ rest = way := by
  simp [waysOfAll]

/-- What applying effects comes to is one of their ways, if they succeed. -/
theorem firedAll_mem_waysOfAll (es : List Effect) : ∀ (d : Draft) (dice : Dice),
    (applyAll es d dice).error = none → firedAll es d dice ∈ waysOfAll es := by
  induction es with
  | nil => exact fun d dice _ => List.mem_singleton_self _
  | cons e es ih =>
    intro d dice h
    rcases ha : apply e d dice with ⟨d', dice', _ | error⟩
    · simp only [applyAll, ha] at h
      have hfirst := fired_mem_ways e d dice (by rw [ha])
      simp only [firedAll, ha]
      exact mem_waysOfAll_cons_iff.2 ⟨_, hfirst, _, ih d' dice' h, rfl⟩
    · simp [applyAll, ha] at h

/-! ## The goto that a way comes to -/

mutual

/-- A way of running one effect comes to one goto at most. -/
theorem length_of_mem_ways : (e : Effect) → ∀ way ∈ ways e, way.length ≤ 1
  | .goto _ => by simp [ways]
  | .oneOf members => by
    rw [ways]
    split
    · simp
    · exact length_of_mem_waysOfAny members
  | .provided _ member => by
    rw [ways, List.forall_mem_cons]
    exact ⟨Nat.zero_le 1, length_of_mem_ways member⟩
  | .setFlag .. | .addResource .. | .multiplyResource .. | .setResource .. | .setVariable ..
  | .verbatim _ => by simp [ways]

theorem length_of_mem_waysOfAny : (es : List Effect) → ∀ way ∈ waysOfAny es, way.length ≤ 1
  | [] => by simp [waysOfAny]
  | e :: es => by
    rw [waysOfAny, List.forall_mem_append]
    exact ⟨length_of_mem_ways e, length_of_mem_waysOfAny es⟩

end

mutual

/-- Some way of running an effect comes to a given goto exactly if it is among those of the effect. -/
theorem singleton_mem_ways_iff : (e : Effect) → ([target] ∈ ways e ↔ target ∈ gotos e)
  | .goto _ => by simp [ways, gotos]
  | .oneOf members => by
    rw [ways, gotos, ← singleton_mem_waysOfAny_iff members]
    split
    · next hmembers => simp [List.eq_nil_of_length_eq_zero hmembers, waysOfAny]
    · rfl
  | .provided _ member => by
    rw [ways, gotos, List.mem_cons, singleton_mem_ways_iff member]
    simp
  | .setFlag .. | .addResource .. | .multiplyResource .. | .setResource .. | .setVariable ..
  | .verbatim _ => by simp [ways, gotos]

theorem singleton_mem_waysOfAny_iff : (es : List Effect) →
    ([target] ∈ waysOfAny es ↔ target ∈ gotosOfAll es)
  | [] => by simp [waysOfAny, gotosOfAll]
  | e :: es => by
    rw [waysOfAny, gotosOfAll, List.mem_append, List.mem_append, singleton_mem_ways_iff e,
      singleton_mem_waysOfAny_iff es]

end

/-- After one effect, one of its gotos decides, or what did before if the effect is not certain. -/
theorem exists_way_iff : (∃ way ∈ ways e, way.getLast?.getD target = reference) ↔
    target = reference ∧ ¬ Certain e ∨ reference ∈ gotos e := by
  constructor
  · rintro ⟨way, hway, hlast⟩
    have hlength := length_of_mem_ways e way hway
    cases way with
    | nil => exact .inl ⟨hlast, not_not.2 hway⟩
    | cons goto rest =>
      obtain rfl : rest = [] := List.eq_nil_of_length_eq_zero (by simpa using hlength)
      cases hlast
      exact .inr ((singleton_mem_ways_iff e).1 hway)
  · rintro (⟨rfl, hcertain⟩ | hgoto)
    · exact ⟨[], not_not.1 hcertain, rfl⟩
    · exact ⟨[reference], (singleton_mem_ways_iff e).2 hgoto, rfl⟩

theorem prevails_cons_iff : Prevails (e :: es) target ↔
    (target ∈ gotos e ∧ ∀ e' ∈ es, ¬ Certain e') ∨ Prevails es target := by
  constructor
  · rintro ⟨e', after, hsuffix, hgoto, hafter⟩
    rcases List.suffix_cons_iff.1 hsuffix with heq | hsuffix
    · cases heq
      exact .inl ⟨hgoto, hafter⟩
    · exact .inr ⟨e', after, hsuffix, hgoto, hafter⟩
  · rintro (⟨hgoto, hafter⟩ | ⟨e', after, hsuffix, hgoto, hafter⟩)
    · exact ⟨e, es, List.suffix_rfl, hgoto, hafter⟩
    · exact ⟨e', after, hsuffix.trans (List.suffix_cons e es), hgoto, hafter⟩

/-- After effects in order, a goto that prevails decides, or what did before if no effect is certain. -/
theorem exists_wayOfAll_iff (es : List Effect) : ∀ target : String,
    (∃ way ∈ waysOfAll es, way.getLast?.getD target = reference) ↔
      (target = reference ∧ ∀ e ∈ es, ¬ Certain e) ∨ Prevails es reference := by
  induction es with
  | nil => simp [waysOfAll, Prevails]
  | cons e es ih =>
    intro target
    -- the first effect leaves a reference with which the others go on, and there is a way for it in any
    -- case, so it matters only where the others come to no goto
    calc (∃ way ∈ waysOfAll (e :: es), way.getLast?.getD target = reference)
      _ ↔ ∃ first ∈ ways e, ∃ rest ∈ waysOfAll es,
          rest.getLast?.getD (first.getLast?.getD target) = reference := by
        constructor
        · rintro ⟨way, hway, hlast⟩
          obtain ⟨first, hfirst, rest, hrest, rfl⟩ := mem_waysOfAll_cons_iff.1 hway
          rw [getLast?_getD_append] at hlast
          exact ⟨first, hfirst, rest, hrest, hlast⟩
        · rintro ⟨first, hfirst, rest, hrest, hlast⟩
          refine ⟨first ++ rest, mem_waysOfAll_cons_iff.2 ⟨first, hfirst, rest, hrest, rfl⟩, ?_⟩
          rw [getLast?_getD_append, hlast]
      _ ↔ ∃ first ∈ ways e, (first.getLast?.getD target = reference ∧ ∀ e' ∈ es, ¬ Certain e') ∨
          Prevails es reference := by
        simp only [ih]
      _ ↔ ((∃ first ∈ ways e, first.getLast?.getD target = reference) ∧ ∀ e' ∈ es, ¬ Certain e') ∨
          Prevails es reference := by
        obtain ⟨way, hway⟩ := exists_mem_ways e
        constructor
        · rintro ⟨first, hfirst, ⟨hlast, hes⟩ | hprevails⟩
          · exact .inl ⟨⟨first, hfirst, hlast⟩, hes⟩
          · exact .inr hprevails
        · rintro (⟨⟨first, hfirst, hlast⟩, hes⟩ | hprevails)
          · exact ⟨first, hfirst, .inl ⟨hlast, hes⟩⟩
          · exact ⟨way, hway, .inr hprevails⟩
      _ ↔ (target = reference ∧ ∀ e' ∈ e :: es, ¬ Certain e') ∨ Prevails (e :: es) reference := by
        rw [exists_way_iff, prevails_cons_iff, List.forall_mem_cons]
        tauto

/-- A goto outside other effects is certain. -/
theorem certain_of_target? (h : e.target? = some target) : Certain e ∧ gotos e = [target] := by
  cases e with
  | goto =>
    cases h
    simp [Certain, ways, gotos]
  | _ => cases h

end Effect

/-- The last value that a function has on a list, with the place where it has it. -/
theorem getLast?_filterMap_eq_some_iff {α β : Type} {f : α → Option β} {as : List α} {b : β} :
    (as.filterMap f).getLast? = some b ↔
      ∃ a after, a :: after <:+ as ∧ f a = some b ∧ ∀ a' ∈ after, f a' = none := by
  rw [List.getLast?_filterMap, List.findSome?_eq_some_iff]
  constructor
  · rintro ⟨after, a, before, hreverse, ha, hafter⟩
    refine ⟨a, after.reverse, ⟨before.reverse, ?_⟩, ha, by simpa using hafter⟩
    have h := congrArg List.reverse hreverse
    simpa using h.symm
  · rintro ⟨a, after, ⟨before, rfl⟩, ha, hafter⟩
    exact ⟨after.reverse, a, before.reverse, by simp, ha, by simpa using hafter⟩

/-! ## Choices -/

namespace Choice

/-- Some way of running the effects leads from a group to a path: the target of the last goto names it,
or else the target of the choice. -/
def MayLead (c : Choice) (group path : String) : Prop :=
  ∃ way ∈ Effect.waysOfAll c.effects, Path.resolve (way.getLast?.getD c.target) group = path

instance (c : Choice) (group path : String) : Decidable (c.MayLead group path) :=
  inferInstanceAs (Decidable (∃ way ∈ Effect.waysOfAll c.effects,
    Path.resolve (way.getLast?.getD c.target) group = path))

/-- No certain effect overrides the reference. -/
def CanDecide (c : Choice) (reference : String) : Prop :=
  (reference = c.target ∧ ∀ e ∈ c.effects, ¬ e.Certain) ∨ Effect.Prevails c.effects reference

/-- Nothing certain stands behind a goto inside another effect, and only gotos outside other effects are
certain. -/
structure Orderly (c : Choice) : Prop where
  certain : ∀ e ∈ c.effects, e.Certain → e.target?.isSome
  order : c.effects.Pairwise fun e e' => e'.Certain → e.target?.isSome ∨ e.gotos = []

variable {c : Choice} {group path reference : String} {s : State} {dice : Dice}

/-- What a choice does when it succeeds is among the ways of running it. -/
theorem mayLead_effectiveTarget (h : c.Succeeds s dice) (group : String) :
    c.MayLead group (Path.resolve (c.effectiveTarget s dice) group) :=
  ⟨_, Effect.firedAll_mem_waysOfAll c.effects _ dice h, rfl⟩

theorem mayLead_iff : c.MayLead group path ↔
    ∃ reference, c.CanDecide reference ∧ Path.resolve reference group = path := by
  have key : ∀ reference, (∃ way ∈ Effect.waysOfAll c.effects, way.getLast?.getD c.target = reference) ↔
      c.CanDecide reference := by
    intro reference
    rw [Effect.exists_wayOfAll_iff, CanDecide, eq_comm]
  simp only [← key]
  constructor
  · rintro ⟨way, hway, hpath⟩
    exact ⟨_, ⟨way, hway, rfl⟩, hpath⟩
  · rintro ⟨-, ⟨way, hway, rfl⟩, hpath⟩
    exact ⟨way, hway, hpath⟩

theorem mem_destinations_iff : reference ∈ c.destinations ↔
    reference = (c.effects.filterMap Effect.target?).getLast?.getD c.target ∨
      ∃ e ∈ c.effects, e.target? = none ∧ reference ∈ e.gotos := by
  rw [destinations, List.mem_cons, Effect.mem_gotosOfAll_iff]
  simp only [List.mem_filter, Option.isNone_iff_eq_none, and_assoc]

/-- A reference that can decide is one of those that are read off the choice. -/
theorem mem_destinations_of_canDecide (h : c.CanDecide reference) : reference ∈ c.destinations := by
  have plain : ∀ e : Effect, ¬ e.Certain → e.target? = none := by
    intro e he
    cases htarget : e.target? with
    | none => rfl
    | some target => exact absurd (Effect.certain_of_target? htarget).1 he
  rw [mem_destinations_iff]
  rcases h with ⟨rfl, hnone⟩ | ⟨e, after, hsuffix, hgoto, hafter⟩
  · have hnil : c.effects.filterMap Effect.target? = [] :=
      List.filterMap_eq_nil_iff.2 fun e he => plain e (hnone e he)
    exact .inl (by rw [hnil]; rfl)
  · cases htarget : e.target? with
    | none => exact .inr ⟨e, hsuffix.subset List.mem_cons_self, htarget, hgoto⟩
    | some target =>
      have hlast := getLast?_filterMap_eq_some_iff.2
        ⟨e, after, hsuffix, htarget, fun e' he' => plain e' (hafter e' he')⟩
      rw [(Effect.certain_of_target? htarget).2, List.mem_singleton] at hgoto
      exact .inl (by rw [hlast, hgoto]; rfl)

/-- In an orderly choice every reference that is read off it can decide. -/
theorem Orderly.canDecide (h : c.Orderly) (href : reference ∈ c.destinations) :
    c.CanDecide reference := by
  have plain : ∀ e ∈ c.effects, e.target? = none → ¬ e.Certain := by
    intro e he htarget hcertain
    have hsome := h.certain e he hcertain
    rw [htarget] at hsome
    cases hsome
  rcases mem_destinations_iff.1 href with rfl | ⟨e, he, htarget, hgoto⟩
  -- the last goto outside other effects, or the target of the choice
  · cases hlast : (c.effects.filterMap Effect.target?).getLast? with
    | none =>
      rw [List.getLast?_eq_none_iff, List.filterMap_eq_nil_iff] at hlast
      exact .inl ⟨rfl, fun e he => plain e he (hlast e he)⟩
    | some target =>
      obtain ⟨e, after, hsuffix, htarget, hafter⟩ := getLast?_filterMap_eq_some_iff.1 hlast
      refine .inr ⟨e, after, hsuffix, ?_, fun e' he' => ?_⟩
      · rw [(Effect.certain_of_target? htarget).2]
        exact List.mem_singleton_self _
      · exact plain e' (hsuffix.subset (List.mem_cons_of_mem _ he')) (hafter e' he')
  -- a goto inside another effect
  · obtain ⟨before, after, heffects⟩ := List.append_of_mem he
    have hsuffix : e :: after <:+ c.effects := ⟨before, heffects.symm⟩
    have horder := List.pairwise_cons.1 (h.order.sublist hsuffix.sublist)
    refine .inr ⟨e, after, hsuffix, hgoto, fun e' he' hcertain => ?_⟩
    rcases horder.1 e' he' hcertain with hsome | hnil
    · rw [htarget] at hsome
      cases hsome
    · rw [hnil] at hgoto
      cases hgoto

end Choice

/-! ## Stories -/

namespace Story

/-- A choice at one path may lead to another path. -/
def MayMove (story : Story) (path next : String) : Prop :=
  ∃ node, story.node? path = some node ∧ ∃ c ∈ node.choices, c.MayLead (Path.group path) next

/-- What a choice does is possible.  The possible destinations of a choice are the nodes named by
references that no certain effect overrides, and they are all listed.  An orderly choice lists no others,
so a story of orderly choices is refused only for cycles that possible moves close. -/
theorem choiceEdges_possible (story : Story) :
    (∀ (c : Choice) s dice group, c.Succeeds s dice →
      c.MayLead group (Path.resolve (c.effectiveTarget s dice) group)) ∧
    (∀ group c path, path ∈ story.choiceEdges group c ∧ c.MayLead group path ↔
      path ∈ story.nodes.keys ∧
        ∃ reference, c.CanDecide reference ∧ Path.resolve reference group = path) ∧
    (∀ group c, c.Orderly → ∀ path ∈ story.choiceEdges group c, c.MayLead group path) ∧
    ((∀ path node, story.node? path = some node → ∀ c ∈ node.choices, c.Orderly) →
      ∀ chain, .cycle chain ∈ story.cycleIssues → chain.IsChain story.MayMove) := by
  have orderly : ∀ group (c : Choice), c.Orderly →
      ∀ path ∈ story.choiceEdges group c, c.MayLead group path := by
    intro group c hc path hpath
    obtain ⟨-, reference, href, hresolve⟩ := mem_choiceEdges_iff.1 hpath
    exact Choice.mayLead_iff.2 ⟨reference, hc.canDecide href, hresolve⟩
  refine ⟨fun c s dice group h => Choice.mayLead_effectiveTarget h group, fun group c path => ?_,
    orderly, fun hstory chain hchain => ?_⟩
  · rw [mem_choiceEdges_iff, Choice.mayLead_iff]
    constructor
    · rintro ⟨⟨hnode, -⟩, hdecides⟩
      exact ⟨hnode, hdecides⟩
    · rintro ⟨hnode, reference, hdecides, hresolve⟩
      exact ⟨⟨hnode, reference, Choice.mem_destinations_of_canDecide hdecides, hresolve⟩,
        reference, hdecides, hresolve⟩
  · obtain ⟨chain', hfound, heq⟩ := List.mem_map.1 hchain
    cases heq
    obtain ⟨-, -, -, -, hedges⟩ :=
      Graph.cycles_sound story.transitions_closed story.start chain hfound
    refine hedges.imp fun a b hedge => ?_
    obtain ⟨node, hnode, c, hc, hb⟩ := edge_transitions_iff.1 hedge
    exact ⟨node, hnode, c, hc, orderly _ c (hstory a node hnode c hc) b hb⟩

/-- A choice whose second goto may take the place of the first, with references out of its group and
inside it. -/
def stumble : Choice :=
  ⟨"stumble", "", "", [], [.goto "../yard", .provided (.flagIs "dark" true) (.goto "./cellar")], none⟩

/-- A story with the choice in a group. -/
def manor : Story where
  kind := ""
  start := "house/hall"
  flags := ∅
  resources := ∅
  nodes := .ofEntries [("house/hall", ⟨"house/hall", "", [stumble]⟩),
    ("house/cellar", ⟨"house/cellar", "", []⟩), ("yard", ⟨"yard", "", []⟩)]

theorem choiceEdges_possible_manor : stumble.Orderly ∧
    manor.choiceEdges "house" stumble = ["yard", "house/cellar"] ∧
    stumble.MayLead "house" "yard" ∧ stumble.MayLead "house" "house/cellar" := by
  have horderly : stumble.Orderly := ⟨by decide, by decide⟩
  have hedges : manor.choiceEdges "house" stumble = ["yard", "house/cellar"] := by decide
  have hpossible := (choiceEdges_possible manor).2.2.1 "house" stumble horderly
  rw [hedges] at hpossible
  exact ⟨horderly, hedges, hpossible "yard" (by simp), hpossible "house/cellar" (by simp)⟩

/-- A choice whose first goto cannot matter, and one whose target cannot. -/
def porchChoices : List Choice := [
  ⟨"leave", "", "yard", [], [.provided (.flagIs "dark" true) (.goto "porch"), .goto "yard"], none⟩,
  ⟨"slip", "", "porch", [], [.oneOf [.goto "yard"]], none⟩]

/-- A story that ends in the yard with the first choice. -/
def porch : Story where
  kind := ""
  start := "porch"
  flags := ∅
  resources := ∅
  nodes := .ofEntries [("porch", ⟨"porch", "", porchChoices⟩), ("yard", ⟨"yard", "", []⟩)]

/-- The story is refused for a cycle, as both choices count the porch among their destinations.  No way of
running them leads there, and every turn that succeeds leads to the yard. -/
theorem porch_accused :
    porch.issues false [] = [.cycle ["porch", "porch"]] ∧
    (∀ c ∈ porchChoices, "porch" ∈ porch.choiceEdges "" c ∧ ¬ c.MayLead "" "porch") ∧
    ∀ (s t : Session) (asked : Datum) (dice : Dice), s.node = "porch" →
      (porch.turn s asked dice).result = .ok t → t.node = "yard" := by
  refine ⟨by decide, by decide, fun s t asked dice hs ht => ?_⟩
  obtain ⟨c, hc, hsucceeds, hnext⟩ := turn_ok ht
  obtain ⟨node, hnode, hmem⟩ := chosen_mem hc
  rw [hs] at hnode
  obtain rfl : ⟨"porch", "", porchChoices⟩ = node := Option.some.inj hnode
  have hyard : ∀ c ∈ porchChoices, ∀ way ∈ Effect.waysOfAll c.effects,
      Path.resolve (way.getLast?.getD c.target) (Path.group "porch") = "yard" := by
    decide
  have haim : aim s c dice = "yard" := by
    obtain ⟨way, hway, hpath⟩ := Choice.mayLead_effectiveTarget hsucceeds (Path.group s.node)
    rw [aim, ← hpath, hs]
    exact hyard c hmem way hway
  have hstands : ¬ ("yard" = "" ∨ "yard" ∉ porch.nodes.keys) := by decide
  rwa [haim, if_neg hstands] at hnext

end Story

end Gamebook
