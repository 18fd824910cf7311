import Gamebook.Proofs.Gate
import Gamebook.Proofs.Procedure
import Gamebook.Proofs.Undo
import Gamebook.Proofs.Writes

/-!
# Choices that fail

A calculation can be done unless one of its numbers is an integer that is out of range and the other one
a floating point number (`Number.Clash`).  So effects fail only where an addition or a multiplication
meets such numbers, or where a number that is too long has to be written: to evaluate a condition, or to
note which effect was picked.  Other parts have written to the draft by then
(`Effect.blocked_of_applyAll`).

The draft is lost then.  What a choice can fail for is listed as `Story.Failure`: evaluating conditions,
refusing what is asked for, and effects that fail.  In each case the play-through is as it was, with the
dice thrown on (`Playthrough.choose_fails_atomically`), since nothing is assigned before the last step
that can fail.
-/

namespace Gamebook

namespace Number

variable {a b : Number} {error : RangeError}

/-- An integer that is out of range, and a floating point number. -/
def Clash : Number → Number → Prop
  | .int n, .float _ | .float _, .int n => Binary64.ofInt? n = none
  | _, _ => False

/-- An operation fails exactly on numbers that clash. -/
theorem combine_eq_error_iff {onInt : Int → Int → Int} {onFloat : Binary64 → Binary64 → Binary64} :
    combine onInt onFloat a b = .error error ↔ Clash a b ∧ error = .tooLarge := by
  cases a with
  | int m =>
    cases b with
    | int n => simp [combine, Clash]
    | float y =>
      simp only [combine, Clash, toBinary64]
      -- the calculation of the float is not to be looked into
      generalize Binary64.ofInt? m = x
      cases x <;> simp [bind, Except.bind, eq_comm]
  | float x =>
    cases b with
    | int n =>
      simp only [combine, Clash, toBinary64]
      generalize Binary64.ofInt? n = y
      cases y <;> simp [bind, Except.bind, eq_comm]
    | float y => simp [combine, Clash, toBinary64]

end Number

/-- The same dice, possibly thrown on. -/
def Dice.Onward (d d' : Dice) : Prop :=
  d'.face = d.face ∧ d.thrown ≤ d'.thrown

namespace Dice.Onward

theorem refl (d : Dice) : Onward d d :=
  ⟨rfl, Nat.le_refl _⟩

theorem trans {d d' d'' : Dice} (h : Onward d d') (h' : Onward d' d'') : Onward d d'' :=
  ⟨h'.1.trans h.1, Nat.le_trans h.2 h'.2⟩

theorem throwSides (d : Dice) (sides : Nat) : Onward d (d.throwSides sides).2 :=
  ⟨rfl, Nat.le_succ _⟩

end Dice.Onward

namespace Effect

/-- The effect is a part of another, at whatever position. -/
def PartOf (part e : Effect) : Prop :=
  ∃ position, part? position e = some part

/-- The effect is one of several, or a part of one, at whatever position. -/
def PartOfAny (part : Effect) (es : List Effect) : Prop :=
  ∃ e ∈ es, PartOf part e

/-- What an effect does by itself cannot be done: a calculation, the evaluation of its condition, or a
note of the effect that is picked. -/
inductive Blocked (s : State) : RangeError → Effect → Prop where
  | addResource {key : String} {delta : Number} (clash : (s.resource key).amount.Clash delta) :
    Blocked s .tooLarge (.addResource key delta)
  | multiplyResource {key : String} {factor : Number}
      (clash : (s.resource key).amount.Clash factor) :
    Blocked s .tooLarge (.multiplyResource key factor)
  | provided {condition : Condition} {member : Effect} {error : RangeError}
      (hevaluate : condition.evaluate s = .error error) :
    Blocked s error (.provided condition member)
  | oneOf {members : List Effect} {member : Effect} (hmember : member ∈ members)
      (hlong : member.toDatum.hasTooLong = true) :
    Blocked s .tooLong (.oneOf members)

variable {e part : Effect} {es : List Effect} {error : RangeError}

namespace PartOf

theorem refl (e : Effect) : PartOf e e :=
  ⟨[], by simp [part?]⟩

theorem of_provided {condition : Condition} (h : PartOf part e) :
    PartOf part (.provided condition e) := by
  obtain ⟨position, hpart⟩ := h
  exact ⟨0 :: position, by simpa [part?] using hpart⟩

theorem of_oneOf (h : PartOf part e) (he : e ∈ es) : PartOf part (.oneOf es) := by
  obtain ⟨position, hpart⟩ := h
  obtain ⟨i, hi⟩ := List.mem_iff_getElem?.1 he
  exact ⟨i :: position, by simpa [part?, hi] using hpart⟩

theorem any (h : PartOf part e) : PartOfAny part (e :: es) :=
  ⟨e, List.mem_cons_self, h⟩

end PartOf

theorem PartOfAny.of_tail (h : PartOfAny part es) : PartOfAny part (e :: es) := by
  obtain ⟨e', he', hpart⟩ := h
  exact ⟨e', List.mem_cons_of_mem _ he', hpart⟩

theorem PartOfAny.partOf (h : PartOfAny part es) : PartOf part (.oneOf es) := by
  obtain ⟨e, he, hpart⟩ := h
  exact hpart.of_oneOf he

/-! ## Where effects fail -/

/-- A change of a resource that fails leaves the draft as it is, with numbers that clash. -/
theorem clash_of_updateResource {d : Draft} {dice : Dice} {key : String} {n : Number}
    {onInt : Int → Int → Int} {onFloat : Binary64 → Binary64 → Binary64}
    (h : (d.updateResource dice key fun a => Number.combine onInt onFloat a n).error = some error) :
    let failed := d.updateResource dice key fun a => Number.combine onInt onFloat a n
    error = .tooLarge ∧ (failed.draft.toState.resource key).amount.Clash n := by
  intro failed
  cases hresult : Number.combine onInt onFloat (d.resource key).amount n with
  | ok amount =>
    simp only [Draft.updateResource, hresult] at h
    cases h
  | error e =>
    have hfailed : failed = ⟨d, dice, some e⟩ := by
      simp only [failed, Draft.updateResource, hresult]
    obtain ⟨hclash, rfl⟩ := Number.combine_eq_error_iff.1 hresult
    obtain rfl : RangeError.tooLarge = error := by
      simpa only [Draft.updateResource, hresult, Option.some.injEq] using h
    rw [hfailed]
    exact ⟨rfl, hclash⟩

mutual

/-- An effect that fails has a part that cannot be done in the draft that it leaves. -/
theorem blocked_of_apply : (e : Effect) → (d : Draft) → (dice : Dice) →
    (apply e d dice).error = some error →
      ∃ part, PartOf part e ∧ Blocked (apply e d dice).draft.toState error part
  | .addResource key delta, d, dice, h => by
    obtain ⟨rfl, hclash⟩ := clash_of_updateResource h
    exact ⟨_, .refl _, .addResource hclash⟩
  | .multiplyResource key factor, d, dice, h => by
    obtain ⟨rfl, hclash⟩ := clash_of_updateResource h
    exact ⟨_, .refl _, .multiplyResource hclash⟩
  | .oneOf members, d, dice, h => by
    rw [apply] at h ⊢
    split at h
    · cases h
    · next hmembers =>
      rw [if_neg hmembers]
      rcases blocked_of_applyNth members _ d _ h with ⟨rfl, member, hmember, hlong⟩ | hblocked
      · exact ⟨_, .refl _, .oneOf hmember hlong⟩
      · obtain ⟨part, hpart, hblocked⟩ := hblocked
        exact ⟨part, hpart.partOf, hblocked⟩
  | .provided condition member, d, dice, h => by
    rw [apply] at h ⊢
    cases hevaluate : condition.evaluate d.toState with
    | error e =>
      rw [hevaluate] at h
      cases h
      exact ⟨_, .refl _, .provided hevaluate⟩
    | ok holds =>
      rw [hevaluate] at h
      cases holds with
      | true =>
        obtain ⟨part, hpart, hblocked⟩ := blocked_of_apply member d dice h
        exact ⟨part, hpart.of_provided, hblocked⟩
      | false => cases h
  | .setFlag .., _, _, h | .setResource .., _, _, h | .setVariable .., _, _, h | .goto _, _, _, h
  | .verbatim _, _, _, h => by cases h

/-- A pick fails since it cannot be noted, or since what is picked fails. -/
theorem blocked_of_applyNth : (es : List Effect) → (n : Nat) → (d : Draft) → (dice : Dice) →
    (applyNth es n d dice).error = some error →
      (error = .tooLong ∧ ∃ e ∈ es, e.toDatum.hasTooLong = true) ∨
      ∃ part, PartOfAny part es ∧ Blocked (applyNth es n d dice).draft.toState error part
  | [], _, _, _, h => by cases h
  | e :: _, 0, d, dice, h => by
    rw [applyNth] at h ⊢
    split at h
    · next hlong =>
      cases h
      exact .inl ⟨rfl, e, List.mem_cons_self, hlong⟩
    · next hshort =>
      rw [if_neg hshort]
      obtain ⟨part, hpart, hblocked⟩ := blocked_of_apply e d dice h
      exact .inr ⟨part, hpart.any, hblocked⟩
  | _ :: es, n + 1, d, dice, h => by
    rcases blocked_of_applyNth es n d dice h with ⟨herror, e, he, hlong⟩ | ⟨part, hpart, hblocked⟩
    · exact .inl ⟨herror, e, List.mem_cons_of_mem _ he, hlong⟩
    · exact .inr ⟨part, hpart.of_tail, hblocked⟩

end

/-- The effects before the one that fails have written to the draft in which it fails. -/
theorem blocked_of_applyAll (es : List Effect) : ∀ (d : Draft) (dice : Dice),
    (applyAll es d dice).error = some error →
      ∃ part, PartOfAny part es ∧ Blocked (applyAll es d dice).draft.toState error part := by
  induction es with
  | nil =>
    intro d dice h
    cases h
  | cons e es ih =>
    intro d dice h
    rcases ha : apply e d dice with ⟨d', dice', _ | e'⟩
    · simp only [applyAll, ha] at h ⊢
      obtain ⟨part, hpart, hblocked⟩ := ih d' dice' h
      exact ⟨part, hpart.of_tail, hblocked⟩
    · simp only [applyAll, ha] at h ⊢
      have hfirst : (apply e d dice).error = some error := by
        rw [ha]
        exact h
      obtain ⟨part, hpart, hblocked⟩ := blocked_of_apply e d dice hfirst
      rw [ha] at hblocked
      exact ⟨part, hpart.any, hblocked⟩

/-! ## Dice -/

mutual

theorem onward_apply : (e : Effect) → (d : Draft) → (dice : Dice) →
    dice.Onward (apply e d dice).dice
  | .oneOf members, d, dice => by
    rw [apply]
    split
    · exact .refl dice
    · exact (Dice.Onward.throwSides dice _).trans (onward_applyNth members _ d _)
  | .provided condition member, d, dice => by
    rw [apply]
    split
    · exact onward_apply member d dice
    · exact .refl dice
    · exact .refl dice
  | .addResource .., d, dice | .multiplyResource .., d, dice => by
    rw [apply, Draft.updateResource]
    split <;> exact .refl dice
  | .setFlag .., _, dice | .setResource .., _, dice | .setVariable .., _, dice | .goto _, _, dice
  | .verbatim _, _, dice => .refl dice

theorem onward_applyNth : (es : List Effect) → (n : Nat) → (d : Draft) → (dice : Dice) →
    dice.Onward (applyNth es n d dice).dice
  | [], _, _, dice => .refl dice
  | e :: _, 0, d, dice => by
    rw [applyNth]
    split
    · exact .refl dice
    · exact onward_apply e d dice
  | _ :: es, n + 1, d, dice => onward_applyNth es n d dice

end

theorem onward_applyAll (es : List Effect) : ∀ (d : Draft) (dice : Dice),
    dice.Onward (applyAll es d dice).dice := by
  induction es with
  | nil => exact fun d dice => .refl dice
  | cons e es ih =>
    intro d dice
    have hfirst := onward_apply e d dice
    rcases ha : apply e d dice with ⟨d', dice', _ | error⟩ <;> rw [ha] at hfirst <;>
      simp only [applyAll, ha]
    · exact hfirst.trans (ih d' dice')
    · exact hfirst

end Effect

/-! ## Turns -/

namespace Story

variable {story : Story} {s : Session} {asked : Datum} {dice : Dice} {c : Choice}
  {error : TurnError}

/-- A part of the choice cannot be done in a state that writes of the choice lead to. -/
def Stuck (s : Session) (c : Choice) (error : RangeError) : Prop :=
  ∃ reached part, Relation.ReflTransGen (Effect.WritesOfAll c.effects) s.toState reached ∧
    Effect.PartOfAny part c.effects ∧ Effect.Blocked reached error part

/-- Taking a choice fails only where one of its parts is stuck. -/
theorem stuck_of_take (h : (story.take s c dice).result = .error error) :
    ∃ e, error = .range e ∧ Stuck s c e := by
  unfold take at h
  have hwrites := Effect.writes_applyAll c.effects { s.toState with target := none } dice
  split at h
  · next draft dice' e ha =>
    cases h
    obtain ⟨part, hpart, hblocked⟩ := Effect.blocked_of_applyAll _ _ _ (by rw [ha])
    rw [ha] at hwrites hblocked
    exact ⟨e, rfl, draft.toState, part, hwrites, hpart, hblocked⟩
  · cases h

theorem onward_take (story : Story) (s : Session) (c : Choice) (dice : Dice) :
    dice.Onward (story.take s c dice).dice := by
  unfold take
  have honward := Effect.onward_applyAll c.effects { s.toState with target := none } dice
  split
  · next ha => rwa [ha] at honward
  · next ha => rwa [ha] at honward

/-- What a turn can fail for. -/
inductive Failure (story : Story) (s : Session) (asked : Datum) : TurnError → Prop where
  /-- The conditions of the node cannot be evaluated. -/
  | unevaluated {e : RangeError} (havailable : story.available s = .error e) :
    Failure story s asked (.range e)
  /-- No choice of the node is asked for, and what is asked for cannot be written. -/
  | unwritten {node : Node} (hnode : story.node? s.node = some node)
      (hunknown : node.asked? asked = none) (hlong : asked.hasTooLong = true) :
    Failure story s asked (.range .tooLong)
  /-- No choice that is asked for is open. -/
  | refused {e : ChoiceError} {available : List Choice}
      (havailable : story.available s = .ok available) (hclosed : ∀ c, ¬ story.Open s asked c) :
    Failure story s asked (.choice e)
  /-- The effects of the chosen choice fail. -/
  | stuck {e : RangeError} {c : Choice} (hchosen : story.chosen s asked = .ok c)
      (hstuck : Stuck s c e) :
    Failure story s asked (.range e)

/-- What keeps a choice from being chosen. -/
theorem failure_of_chosen (h : story.chosen s asked = .error error) :
    story.Failure s asked error := by
  have hclosed {available : List Choice} (havailable : story.available s = .ok available) :
      ∀ c, ¬ story.Open s asked c := by
    rw [← not_exists, ← exists_chosen_iff havailable, h]
    simp
  unfold chosen at h
  split at h
  · next hnode =>
    have havailable : story.available s = .ok [] := by
      unfold Story.available
      rw [hnode]
    cases h
    exact .refused havailable (hclosed havailable)
  · next node hnode =>
    have havailable : story.available s = availableAt node s.toState := by
      unfold Story.available
      rw [hnode]
    split at h
    · next hat =>
      cases h
      exact .unevaluated (havailable.trans hat)
    · next hat =>
      have hclosed := hclosed (havailable.trans hat)
      unfold chosenAmong at h
      simp only at h
      split at h
      · next hunknown =>
        split at h
        · next hlong =>
          cases h
          exact .unwritten hnode hunknown hlong
        · cases h
          exact .refused (havailable.trans hat) hclosed
      · split at h
        · cases h
        · cases h
          exact .refused (havailable.trans hat) hclosed

/-- A turn fails for one of these causes, and before the dice are thrown unless the effects fail. -/
theorem turn_failure (h : (story.turn s asked dice).result = .error error) :
    story.Failure s asked error ∧ dice.Onward (story.turn s asked dice).dice ∧
      ((∀ c, story.chosen s asked ≠ .ok c) → (story.turn s asked dice).dice = dice) := by
  cases hc : story.chosen s asked with
  | error e =>
    rw [turn_of_not_chosen hc] at h ⊢
    cases h
    exact ⟨failure_of_chosen hc, .refl dice, fun _ => rfl⟩
  | ok c =>
    rw [turn_of_chosen hc] at h ⊢
    obtain ⟨e, rfl, hstuck⟩ := stuck_of_take h
    exact ⟨.stuck hc hstuck, onward_take story s c dice, fun hnone => absurd rfl (hnone c)⟩

/-! ### A story of gold -/

/-- One half. -/
def half : Number :=
  .float (.ofGrains false (Nat.pow 2 (Binary64.grainBits - 1)))

/-- What melting does: it lights the fire, multiplies the gold until it is out of range, and halves it
if the fire is lit. -/
def melting : List Effect :=
  [.setFlag "lit" true, .multiplyResource "gold" (.int (Nat.pow 10 200)),
    .oneOf [.provided (.flagIs "lit" true) (.multiplyResource "gold" half)]]

/-- A story with a forge, where there is much gold. -/
def forge : Story where
  kind := ""
  start := "forge"
  flags := ∅
  resources := .ofEntries [("gold", .int (Nat.pow 10 200))]
  nodes := .ofEntries [("forge", ⟨"forge", "", [⟨"melt", "", "yard", [], melting, none⟩]⟩),
    ("yard", ⟨"yard", "", []⟩)]

end Story

/-! ## Play-throughs -/

namespace Playthrough

variable {p q : Playthrough} {asked : Datum} {error : TurnError}

/-- If a choice fails, then the session, the inventory, the last outcome and the whole history are as
they were, and only the dice may have been thrown on, which they are not unless a choice was chosen.  It
fails for conditions that cannot be evaluated, for what is asked for, or in the middle of the effects of
the choice: then writes of the choice lead to a state in which a part of it cannot be done, and nothing
of them is left. -/
theorem choose_fails_atomically (h : p.choose asked = (some error, q)) :
    q = { p with dice := q.dice } ∧ p.dice.Onward q.dice ∧
      ((∀ c, p.story.chosen p.session asked ≠ .ok c) → q = p) ∧
      p.story.Failure p.session asked error := by
  have hkept : q = { p with dice := q.dice } := by
    have hfails : (p.choose asked).1.isSome := by
      rw [h]
      rfl
    have hkept := choose_of_isSome hfails
    rwa [h] at hkept
  rcases hturn : p.story.turn p.session asked p.dice with ⟨_ | _, dice⟩
  · rw [choose_of_error hturn] at h
    cases h
    obtain ⟨hfailure, honward, hdice⟩ := Story.turn_failure (congrArg Turn.result hturn)
    rw [hturn] at honward hdice
    refine ⟨rfl, honward, fun hnone => ?_, hfailure⟩
    show { p with dice := dice } = p
    rw [show dice = p.dice from hdice hnone]
  · rw [choose_of_ok hturn] at h
    cases h

/-- A smith who owns a hammer. -/
def smith : Playthrough :=
  begin Story.forge ∅ (Story.forge.begin {})
    (.withItems (.ofItems [⟨"hammer", "", "", .int 7⟩]) ["hammer"]) (.ofList [3])

theorem choose_fails_atomically_forge : ∃ q,
    smith.choose (.text "melt") = (some (.range .tooLarge), q) ∧ q = { smith with dice := q.dice } ∧
      q.dice.thrown = 1 ∧ q.inventory.ids = ["hammer"] ∧
      ∃ c, Story.forge.chosen (Story.forge.begin {}) (.text "melt") = .ok c ∧
        Story.Stuck (Story.forge.begin {}) c .tooLarge := by
  have hchosen : Story.forge.chosen (Story.forge.begin {}) (.text "melt") =
      .ok ⟨"melt", "", "yard", [], Story.melting, none⟩ := rfl
  have hfails : (Effect.applyAll Story.melting { (Story.forge.begin {}).toState with target := none }
      (.ofList [3])).error = some .tooLarge := by decide +kernel
  have hthrown : (Effect.applyAll Story.melting { (Story.forge.begin {}).toState with target := none }
      (.ofList [3])).dice.thrown = 1 := by decide +kernel
  rcases ha : Effect.applyAll Story.melting { (Story.forge.begin {}).toState with target := none }
    (.ofList [3]) with ⟨draft, dice, error⟩
  rw [ha] at hfails hthrown
  obtain rfl : error = some .tooLarge := hfails
  have hturn : Story.forge.turn (Story.forge.begin {}) (.text "melt") (.ofList [3]) =
      ⟨.error (.range .tooLarge), dice⟩ := by
    rw [Story.turn_of_chosen hchosen]
    simp only [Story.take, ha]
  have hchoose : smith.choose (.text "melt") = (some (.range .tooLarge), { smith with dice }) :=
    choose_of_error hturn
  obtain ⟨hsame, -, -, hfailure⟩ := choose_fails_atomically hchoose
  refine ⟨_, hchoose, hsame, hthrown, rfl, ?_⟩
  cases hfailure with
  | unevaluated havailable => cases havailable
  | stuck hchosen hstuck => exact ⟨_, hchosen, hstuck⟩

end Playthrough

end Gamebook
