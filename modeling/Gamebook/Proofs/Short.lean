import Gamebook.Story.Loading
import Gamebook.Proofs.Failure
import Gamebook.Proofs.Origin
import Gamebook.Proofs.Progress
import Gamebook.Proofs.Typed

/-!
# Stories whose numbers can be written

To evaluate a condition and to note which effect was picked, numbers are written, which fails for those
that are too long.  In a story whose conditions and effects hold no such number (`Story.Short`) it never
fails: variables get their values from effects, so none of them is too long along a run
(`Story.Short.turn`), and so conditions can be evaluated (`Story.Short.exists_available`) and a choice is
stuck only in calculations (`Story.Short.tooLarge_of_stuck`).

Every story that is loaded from text is one of them (`Story.short_of_loadText`), since integers with too
many digits are not read.
-/

namespace Gamebook

namespace Condition

mutual

theorem short_of_mem_values : (c : Condition) → c.toDatum.hasTooLong = false →
    ∀ x ∈ c.values, x.toDatum.hasTooLong = false
  | .variableIs key likeness value, h => by
    simpa [values, toDatum, Datum.hasTooLong, Datum.memberTooLong] using h
  | .allOf members, h => by
    simp only [toDatum, Datum.hasTooLong, Datum.memberTooLong, Bool.or_false, Bool.false_or] at h
    exact short_of_mem_valuesOfAll members h
  | .anyOf members, h => by
    simp only [toDatum, Datum.hasTooLong, Datum.memberTooLong, Bool.or_false, Bool.false_or] at h
    exact short_of_mem_valuesOfAll members h
  | .negation member, h => by
    simp only [toDatum, Datum.hasTooLong, Datum.memberTooLong, Bool.or_false, Bool.false_or] at h
    exact short_of_mem_values member h
  | .flagIs .., _ | .resourceIs .., _ | .during .., _ | .verbatim _, _ => List.forall_mem_nil _

theorem short_of_mem_valuesOfAll : (cs : List Condition) → Datum.someTooLong (toData cs) = false →
    ∀ x ∈ valuesOfAll cs, x.toDatum.hasTooLong = false
  | [], _ => List.forall_mem_nil _
  | c :: cs, h => by
    rw [toData, Datum.someTooLong, Bool.or_eq_false_iff] at h
    exact List.forall_mem_append.2
      ⟨short_of_mem_values c h.1, short_of_mem_valuesOfAll cs h.2⟩

end

end Condition

/-! ## States -/

/-- The values of all variables can be written. -/
def State.Short (s : State) : Prop :=
  ∀ key d, s.vars.get? key = some d → d.hasTooLong = false

namespace State.Short

variable {s t : State} {e part : Effect} {es : List Effect} {error : RangeError}

/-- There is nothing that is too long for a condition to be evaluated. -/
theorem not_someTooLong (hs : s.Short) {values : List Scalar}
    (h : ∀ x ∈ values, x.toDatum.hasTooLong = false) : ¬ Condition.SomeTooLong s values := by
  rintro (⟨key, d, hd, hlong⟩ | ⟨x, hx, hlong⟩)
  · rw [hs key d hd] at hlong
    cases hlong
  · rw [h x hx] at hlong
    cases hlong

theorem write (hs : s.Short) (he : e.toDatum.hasTooLong = false) (h : e.Write s t) : t.Short := by
  cases h with
  | setVariable =>
    intro key d hd
    rw [Table.get?_put] at hd
    split at hd
    · cases hd
      simpa [Effect.toDatum, Datum.hasTooLong, Datum.memberTooLong] using he
    · exact hs key d hd
  | _ => exact hs

theorem of_part (he : e.toDatum.hasTooLong = false) (h : Effect.PartOf part e) :
    part.toDatum.hasTooLong = false := by
  obtain ⟨position, h⟩ := h
  induction position generalizing e with
  | nil =>
    rw [Effect.part?, Option.some.injEq] at h
    rwa [← h]
  | cons i position ih =>
    cases e with
    | oneOf members =>
      obtain ⟨e, he', h⟩ := Option.bind_eq_some_iff.1 h
      exact ih (Datum.pervasive_short.oneOf.1 he e (List.mem_of_getElem? he')) h
    | provided condition member =>
      cases i with
      | zero => exact ih (Datum.pervasive_short.provided.1 he).2 h
      | succ i => cases h
    | _ => cases h

theorem writes (hs : s.Short) (hes : ∀ e ∈ es, e.toDatum.hasTooLong = false)
    (h : Relation.ReflTransGen (Effect.WritesOfAll es) s t) : t.Short := by
  induction h with
  | refl => exact hs
  | tail _ hwrite ih =>
    obtain ⟨e, he, position, part, hpart, hwrite⟩ := hwrite
    exact ih.write (of_part (hes e he) ⟨position, hpart⟩) hwrite

/-- An effect is blocked only by numbers that clash. -/
theorem tooLarge_of_blocked (hs : s.Short) (he : e.toDatum.hasTooLong = false)
    (h : Effect.Blocked s error e) : error = .tooLarge := by
  cases h with
  | addResource | multiplyResource => rfl
  | @provided condition member _ hevaluate =>
    have hgives := condition.gives_evaluate s
    rw [hevaluate] at hgives
    have hcondition := (Datum.pervasive_short.provided.1 he).1
    exact absurd hgives.2 (hs.not_someTooLong (condition.short_of_mem_values hcondition))
  | oneOf hmember hlong =>
    rw [Datum.pervasive_short.oneOf.1 he _ hmember] at hlong
    cases hlong

end State.Short

/-! ## Stories -/

/-- The numbers in the conditions and effects of a choice can be written. -/
structure Choice.Short (c : Choice) : Prop where
  conditions : ∀ condition ∈ c.conditions, condition.toDatum.hasTooLong = false
  effects : ∀ e ∈ c.effects, e.toDatum.hasTooLong = false

instance (c : Choice) : Decidable c.Short :=
  decidable_of_iff ((∀ condition ∈ c.conditions, condition.toDatum.hasTooLong = false) ∧
      ∀ e ∈ c.effects, e.toDatum.hasTooLong = false)
    ⟨fun h => ⟨h.1, h.2⟩, fun h => ⟨h.conditions, h.effects⟩⟩

/-- The numbers in the conditions and effects of a story can be written. -/
def Story.Short (story : Story) : Prop :=
  ∀ entry ∈ story.nodes.entries, ∀ c ∈ entry.2.choices, c.Short

instance (story : Story) : Decidable story.Short :=
  inferInstanceAs (Decidable (∀ entry ∈ story.nodes.entries, ∀ c ∈ entry.2.choices, c.Short))

namespace Story.Short

variable {story : Story} {s t : Session} {asked : Datum} {dice : Dice} {node : Node} {c : Choice}

theorem choice (h : story.Short) {path : String} (hnode : story.node? path = some node)
    (hc : c ∈ node.choices) : c.Short :=
  h _ (Table.get?_eq_some_iff.1 hnode) c hc

theorem begin (story : Story) : (story.begin {}).Short := by
  intro key d hd
  cases hd

/-- A turn leaves values that can be written. -/
theorem turn (h : story.Short) (hs : s.Short) (hturn : (story.turn s asked dice).result = .ok t) :
    t.Short := by
  obtain ⟨node, c, hnode, hc, written, hwrites, ht⟩ := turn_writes hturn
  have hwritten := hs.writes (h.choice hnode hc).effects hwrites
  rw [State.Short, ht]
  exact hwritten

/-- Which choices are available can be settled. -/
theorem exists_available (h : story.Short) (hs : s.Short) :
    ∃ available, story.available s = .ok available := by
  unfold Story.available
  cases hnode : story.node? s.node with
  | none => exact ⟨[], rfl⟩
  | some node =>
    have hgives := gives_availableAmong s.toState node.choices
    simp only [availableAt]
    cases havailable : availableAmong s.toState node.choices with
    | ok available => exact ⟨available, rfl⟩
    | error e =>
      rw [havailable] at hgives
      refine absurd hgives.2 (hs.not_someTooLong fun x hx => ?_)
      obtain ⟨c, hc, hx⟩ := List.mem_flatMap.1 hx
      obtain ⟨condition, hcondition, hx⟩ := Condition.mem_valuesOfAll.1 hx
      exact condition.short_of_mem_values ((h.choice hnode hc).conditions condition hcondition) x hx

/-- A choice of a node is stuck only for numbers that clash. -/
theorem tooLarge_of_stuck (h : story.Short) (hs : s.Short) (hnode : story.node? s.node = some node)
    (hc : c ∈ node.choices) {error : RangeError} (hstuck : Stuck s c error) : error = .tooLarge := by
  obtain ⟨reached, part, hwrites, ⟨e, he, hpart⟩, hblocked⟩ := hstuck
  have heffects := (h.choice hnode hc).effects
  exact (hs.writes heffects hwrites).tooLarge_of_blocked
    (State.Short.of_part (heffects e he) hpart) hblocked

end Story.Short

/-! ## Stories that are loaded -/

namespace Document

variable {place : String} {d : Datum}

theorem short_of_readCondition (hd : d.hasTooLong = false) {c : Condition}
    (h : readCondition place d = .ok (some c)) : c.toDatum.hasTooLong = false := by
  cases d with
  | text s => exact Datum.pervasive_short.condition_of_ofText (mapError_eq_ok h)
  | object ms =>
    unfold readCondition at h
    simp only at h
    split at h
    · next hread =>
      cases h
      exact Datum.pervasive_short.condition_of_ofDatum _ hd hread
    · cases h
    · cases h
  | _ => cases h

theorem short_of_readEffect (hd : d.hasTooLong = false) {e : Effect}
    (h : readEffect place d = .ok (some e)) : e.toDatum.hasTooLong = false := by
  cases d with
  | text s => exact Datum.pervasive_short.effect_of_ofText (mapError_eq_ok h)
  | object ms =>
    unfold readEffect at h
    simp only at h
    split at h
    · next hread =>
      cases h
      exact Datum.pervasive_short.effect_of_ofDatum _ hd hread
    · cases h
    · cases h
  | _ => cases h

theorem short_of_readChoice {form : ChoiceForm} {c : Choice}
    (hdata : ∀ d ∈ form.data, d.hasTooLong = false) (h : readChoice place form = .ok c) :
    c.Short := by
  obtain ⟨conditions, hconditions, h⟩ := bind_eq_ok_iff.1 h
  obtain ⟨effects, heffects, h⟩ := bind_eq_ok_iff.1 h
  cases h
  refine ⟨fun condition hmem => ?_, fun e hmem => ?_⟩
  · obtain ⟨_, hmem, rfl⟩ := List.mem_filterMap.1 hmem
    obtain ⟨_, d, hd, hread⟩ := exists_of_mem_readEach hconditions _ hmem
    exact short_of_readCondition (hdata d (List.mem_append_left _ hd)) hread
  · obtain ⟨_, hmem, rfl⟩ := List.mem_filterMap.1 hmem
    obtain ⟨_, d, hd, hread⟩ := exists_of_mem_readEach heffects _ hmem
    exact short_of_readEffect (hdata d (List.mem_append_right _ hd)) hread

theorem short_of_readNode {key : String} {form : NodeForm} {n : Node}
    (hdata : ∀ d ∈ form.data, d.hasTooLong = false) (h : readNode key form = .ok n) :
    ∀ c ∈ n.choices, c.Short := by
  obtain ⟨choices, hchoices, h⟩ := bind_eq_ok_iff.1 h
  cases h
  intro c hc
  obtain ⟨_, form', hform', hread⟩ := exists_of_mem_readEach hchoices c hc
  exact short_of_readChoice (fun d hd => hdata d (List.mem_flatMap.2 ⟨form', hform', hd⟩)) hread

theorem short_of_readNodes {forms : List (String × NodeForm)} {nodes : List (String × Node)}
    (hdata : ∀ f ∈ forms, ∀ d ∈ f.2.data, d.hasTooLong = false) (h : readNodes forms = .ok nodes) :
    ∀ entry ∈ nodes, ∀ c ∈ entry.2.choices, c.Short := by
  induction forms generalizing nodes with
  | nil =>
    cases h
    exact List.forall_mem_nil _
  | cons f forms ih =>
    obtain ⟨node, hnode, h⟩ := bind_eq_ok_iff.1 h
    obtain ⟨rest, hrest, h⟩ := bind_eq_ok_iff.1 h
    cases h
    obtain ⟨hfirst, hothers⟩ := List.forall_mem_cons.1 hdata
    exact List.forall_mem_cons.2 ⟨short_of_readNode hfirst hnode, ih hothers hrest⟩

end Document

theorem Datum.short_of_within {part d : Datum} (h : part.Within d) (hd : d.hasTooLong = false) :
    part.hasTooLong = false := by
  induction h with
  | here => exact hd
  | item hmem _ ih => exact ih (Datum.pervasive_short.list.1 hd _ hmem)
  | member hmem _ ih => exact ih (Datum.pervasive_short.object.1 hd _ hmem)

namespace Story

variable {checker : Checker} {story : Story} {allowCycles : Bool}

/-- A document in which all numbers can be written tells a story of which the same is true. -/
theorem short_of_ofDatum (hpasses : checker.PassesOn) {d : Datum} (hd : d.hasTooLong = false)
    (h : ofDatum checker d = .ok story) : story.Short := by
  unfold ofDatum at h
  split at h
  · cases h
  · cases h
  · next form hform =>
    refine Document.short_of_readNodes (fun f hf d' hd' => ?_) (readNodes_of_read h)
    have hwithin := hpasses d form hform d' (List.mem_flatMap.2 ⟨f, hf, hd'⟩)
    exact Datum.short_of_within hwithin hd

theorem eq_of_validated {listed : List String} {s : Story}
    (h : s.validated allowCycles listed = .ok story) : story = s := by
  unfold validated at h
  split at h
  · cases h
    rfl
  · cases h

/-- The numbers of a story that is loaded from text can be written. -/
theorem short_of_loadText (hpasses : checker.PassesOn) {cs : List Char}
    (h : loadText checker cs allowCycles = .ok story) : story.Short := by
  unfold loadText at h
  split at h
  · cases h
  · cases h
  · next d hread =>
    have hd := Datum.pervasive_short.settle d (Datum.pervasive_short.of_readWritten hread)
    unfold load at h
    split at h
    · next s hs =>
      rw [eq_of_validated h]
      exact short_of_ofDatum hpasses hd hs
    · cases h

end Story

end Gamebook
