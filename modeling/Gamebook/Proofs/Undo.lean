import Gamebook.Proofs.Owned
import Gamebook.Proofs.Fallible
import Gamebook.Proofs.Procedure
import Mathlib.Logic.Relation

/-!
# Choices that are undone

What can be done to a play-through is an `Action`, and an action that fails leaves it as it is, except
for the dice.  An action is quiet if it neither takes a choice nor undoes one.  Quiet actions keep the
history (`Playthrough.Quiet.history`), so an undo after them finds the moment before the last choice on
top of it.

The moment holds the ids that were owned, and undoing adds them one after the other to an empty
inventory.  That gives the inventory back since owned ids are different and are in the catalog, unless
the empty id is among them, which is never added.  So an undo leads back exactly, and as many undos as
there were choices lead back to the first of them (`Playthrough.undo_restores`).
-/

namespace Gamebook

/-- Something that is done to a play-through, or to its inventory directly. -/
inductive Action where
  | choose (asked : Datum)
  | advance (delta : Number)
  | undo
  | pickUp (id : String)
  | putDown (id : String)
  | empty
  | receive (outcome : Outcome)

namespace Playthrough

/-- The play-through after an action. -/
def act (p : Playthrough) : Action → Playthrough
  | .choose asked => (p.choose asked).2
  | .advance delta =>
    match p.advance delta with
    | .ok q => q
    | .error _ => p
  | .undo => p.undo.2
  | .pickUp id => (p.pickUp id).2
  | .putDown id => (p.putDown id).2
  | .empty => { p with inventory := p.inventory.clear }
  | .receive outcome => { p with inventory := (p.inventory.applyOutcome outcome).2 }

/-- An action that takes no choice and undoes none. -/
def Quiet (p : Playthrough) : Action → Prop
  | .choose asked => (p.choose asked).1.isSome
  | .undo => False
  | _ => True

/-- Quiet actions one after the other. -/
def Interlude : Playthrough → Playthrough → Prop :=
  Relation.ReflTransGen fun p q => ∃ action, p.Quiet action ∧ q = p.act action

/-- Choices that are taken one after the other, each with an interlude behind it. -/
inductive Takes : Nat → Playthrough → Playthrough → Prop where
  | zero {p : Playthrough} : Takes 0 p p
  | succ {n : Nat} {p q r t : Playthrough} {asked : Datum} (taken : p.choose asked = (none, q))
      (interlude : Interlude q r) (rest : Takes n r t) : Takes (n + 1) p t

/-- Undos one after the other, each with an interlude before it. -/
inductive Undoes : Nat → Playthrough → Playthrough → Prop where
  | zero {p : Playthrough} : Undoes 0 p p
  | succ {n : Nat} {p q r : Playthrough} (rest : Undoes n p q) (interlude : Interlude q r) :
    Undoes (n + 1) p r.undo.2

/-- What all actions keep. -/
structure Kept (p q : Playthrough) : Prop where
  story : q.story = p.story
  outcomes : q.outcomes = p.outcomes
  inventory : p.inventory.Change q.inventory

variable {p q r : Playthrough} {asked : Datum} {action : Action}

namespace Kept

theorem refl (p : Playthrough) : Kept p p :=
  ⟨rfl, rfl, .refl _⟩

theorem trans (h : Kept p q) (h' : Kept q r) : Kept p r :=
  ⟨h'.story.trans h.story, h'.outcomes.trans h.outcomes, h.inventory.trans h'.inventory⟩

end Kept

/-! ## Single actions -/

/-- A choice that is taken records the moment before it; one that fails changes the dice only. -/
theorem choose_cases (p : Playthrough) (asked : Datum) :
    ((p.choose asked).1 = none ∧ Kept p (p.choose asked).2 ∧
        (p.choose asked).2.history = p.moment :: p.history) ∨
      (p.choose asked).1.isSome ∧ ∃ dice, (p.choose asked).2 = { p with dice } := by
  rcases hturn : p.story.turn p.session asked p.dice with ⟨e | session, dice⟩
  · rw [choose_of_error hturn]
    exact .inr ⟨rfl, dice, rfl⟩
  · rw [choose_of_ok hturn]
    refine .inl ⟨rfl, ⟨rfl, rfl, ?_⟩, rfl⟩
    simp only
    split
    · exact p.inventory.change_applyOutcome _
    · exact .refl _

theorem kept_of_taken (taken : p.choose asked = (none, q)) :
    Kept p q ∧ q.history = p.moment :: p.history := by
  have hcases := p.choose_cases asked
  rw [taken] at hcases
  rcases hcases with ⟨-, hkept, hhistory⟩ | ⟨hfailed, -⟩
  · exact ⟨hkept, hhistory⟩
  · cases hfailed

theorem choose_eq_act (p : Playthrough) (asked : Datum) (h : (p.choose asked).1.isNone) :
    p.choose asked = (none, p.act (.choose asked)) :=
  Prod.ext (Option.isNone_iff_eq_none.1 h) rfl

theorem kept_undo (p : Playthrough) : Kept p p.undo.2 := by
  unfold undo
  split
  · exact .refl p
  · next m history _ =>
    exact ⟨rfl, rfl, p.inventory.change_clear.trans (Inventory.change_foldl_add m.ids _)⟩

/-- An advance moves the clock or does nothing. -/
theorem exists_act_advance (p : Playthrough) (delta : Number) :
    ∃ session, p.act (.advance delta) = { p with session } := by
  rw [act]
  cases hresult : p.advance delta with
  | error e => exact ⟨_, rfl⟩
  | ok q =>
    unfold advance at hresult
    split at hresult
    · obtain ⟨time, -, rfl⟩ := map_eq_ok_iff.1 hresult
      exact ⟨_, rfl⟩
    · cases hresult
      exact ⟨_, rfl⟩

theorem kept_act (p : Playthrough) (action : Action) : Kept p (p.act action) := by
  cases action with
  | choose asked =>
    rcases p.choose_cases asked with ⟨-, hkept, -⟩ | ⟨-, dice, hsame⟩
    · exact hkept
    · rw [act, hsame]
      exact ⟨rfl, rfl, .refl _⟩
  | advance delta =>
    obtain ⟨session, hsame⟩ := p.exists_act_advance delta
    rw [hsame]
    exact ⟨rfl, rfl, .refl _⟩
  | undo => exact p.kept_undo
  | pickUp id => exact ⟨rfl, rfl, p.inventory.change_add id⟩
  | putDown id => exact ⟨rfl, rfl, p.inventory.change_remove id⟩
  | empty => exact ⟨rfl, rfl, p.inventory.change_clear⟩
  | receive outcome => exact ⟨rfl, rfl, p.inventory.change_applyOutcome outcome⟩

theorem Quiet.history (h : p.Quiet action) : (p.act action).history = p.history := by
  cases action with
  | choose asked =>
    rcases p.choose_cases asked with ⟨hnone, -, -⟩ | ⟨-, dice, hsame⟩
    · rw [Quiet, hnone] at h
      cases h
    · rw [act, hsame]
  | advance delta =>
    obtain ⟨session, hsame⟩ := p.exists_act_advance delta
    rw [hsame]
  | undo => exact h.elim
  | pickUp _ | putDown _ | empty | receive _ => rfl

/-! ## Interludes -/

theorem Interlude.act (h : Interlude p q) (hquiet : q.Quiet action) :
    Interlude p (q.act action) :=
  h.tail ⟨action, hquiet, rfl⟩

theorem Interlude.kept (h : Interlude p q) : Kept p q ∧ q.history = p.history := by
  induction h with
  | refl => exact ⟨.refl p, rfl⟩
  | tail _ hstep ih =>
    obtain ⟨action, hquiet, rfl⟩ := hstep
    exact ⟨ih.1.trans (kept_act _ action), hquiet.history.trans ih.2⟩

/-! ## Undoing -/

/-- Where the history is as it was when a choice was taken, an undo leads back to before the choice. -/
theorem undo_of_taken (h : p.inventory.Restorable) (taken : p.choose asked = (none, q))
    (hkept : Kept q r) (hhistory : r.history = q.history) :
    r.undo = (true, { p with dice := r.dice }) := by
  obtain ⟨htaken, hmoment⟩ := kept_of_taken taken
  have hall := htaken.trans hkept
  have hinventory := h.foldl_add_clear hall.inventory.catalog
  unfold undo
  rw [hhistory, hmoment]
  simp only [moment, hinventory, hall.story, hall.outcomes]

theorem undoes_after_takes {n : Nat} (takes : Takes n p q) (h : p.inventory.Restorable) :
    ∀ {r}, Undoes n q r → r = { p with dice := r.dice } := by
  induction takes with
  | zero =>
    intro r undoes
    cases undoes
    rfl
  | @succ n p q r t asked taken interlude _ ih =>
    intro u undoes
    cases undoes with
    | @succ _ _ v w rest interlude' =>
      obtain ⟨hkept, hhistory⟩ := interlude.kept
      obtain ⟨hkept', hhistory'⟩ := interlude'.kept
      -- the undos before the last one lead back to the end of the interlude behind the choice
      have hv := ih (h.change ((kept_of_taken taken).1.trans hkept).inventory) rest
      rw [hv] at hkept' hhistory'
      have hundo := undo_of_taken h taken
        (hkept.trans ⟨hkept'.story, hkept'.outcomes, hkept'.inventory⟩) (hhistory'.trans hhistory)
      rw [hundo]

/-! ## Reached play-throughs -/

/-- The play-through comes from the first one by actions. -/
def Reached (first p : Playthrough) : Prop :=
  ∃ actions : List Action, p = actions.foldl act first

theorem Reached.kept {first : Playthrough} : Reached first p → Kept first p := by
  rintro ⟨actions, rfl⟩
  exact List.foldlRecOn actions act (Kept.refl first) fun q hq action _ =>
    hq.trans (q.kept_act action)

variable {story : Story} {outcomes : Table Outcome} {session : Session} {catalog : Catalog}
  {items : List String} {dice : Dice}

theorem Reached.restorable
    (hp : Reached (begin story outcomes session (.withItems catalog items) dice) p)
    (hids : "" ∉ (Inventory.withItems catalog items).ids ∨ "" ∉ p.inventory.ids) :
    p.inventory.Restorable := by
  obtain ⟨hnodup, hknown⟩ := Inventory.withItems_sound catalog items
  have hc : (Inventory.withItems catalog items).Change p.inventory := hp.kept.inventory
  refine ⟨hc.nodup hnodup, fun id hid => ?_⟩
  rw [Inventory.entity?_congr hc.catalog]
  rcases hc.mem id hid with hfirst | hitem
  · have hne : id ≠ "" := by
      rintro rfl
      exact hids.elim (· hfirst) (· hid)
    exact Inventory.isSome_entity?_iff.2 ⟨hne, hknown id hfirst⟩
  · exact hitem

/-- If the empty id is not owned to begin with, or not now, then the undo of a choice leads back to
where the choice was taken, except for the dice, whatever quiet actions are between.  The same holds
for `n` choices and as many undos. -/
theorem undo_restores
    (hp : Reached (begin story outcomes session (.withItems catalog items) dice) p)
    (hids : "" ∉ (Inventory.withItems catalog items).ids ∨ "" ∉ p.inventory.ids) :
    (∀ asked q r, p.choose asked = (none, q) → Interlude q r →
        r.undo = (true, { p with dice := r.dice })) ∧
      ∀ n q r, Takes n p q → Undoes n q r → r = { p with dice := r.dice } := by
  have h := hp.restorable hids
  refine ⟨fun asked q r taken interlude => ?_, fun n q r takes undoes => ?_⟩
  case refine_2 => exact undoes_after_takes takes h undoes
  obtain ⟨hkept, hhistory⟩ := interlude.kept
  exact undo_of_taken h taken hkept hhistory

/-! ### At a stall -/

/-- A story with a stall, where one can buy bread for a coin and eat it. -/
def stall : Story where
  kind := ""
  start := "stall"
  flags := .ofEntries [("open", true)]
  resources := .ofEntries [("coins", .int 3)]
  nodes := .ofEntries [("stall", ⟨"stall", "", [
    ⟨"buy", "", "stall", [.flagIs "open" true], [.addResource "coins" (.int (-1))],
      some ⟨"ADD_ITEM", some "bread"⟩⟩,
    ⟨"eat", "", "stall", [], [.oneOf [.setFlag "full" true, .setFlag "thirsty" true]], none⟩]⟩)]

/-- What there is at the stall. -/
def goods : Catalog :=
  .ofItems [⟨"bread", "", "", .int 1⟩, ⟨"cup", "", "", .int 2⟩, ⟨"key", "", "", .int 0⟩]

/-- A visitor who comes with a cup. -/
def visitor : Playthrough :=
  begin stall (.ofEntries [("eat", ⟨" remove_item", some "bread"⟩)]) (stall.begin {})
    (.withItems goods ["cup"]) (.ofList [1])

/-- The visitor with a key that was found. -/
def withKey : Playthrough :=
  visitor.act (.pickUp "key")

/-- Bread is bought, then the cup is put down, and time goes by. -/
def rested : Playthrough :=
  ((withKey.act (.choose (.text "buy"))).act (.putDown "cup")).act (.advance (.int 2))

/-- Then a choice is asked for that is not there. -/
def bought : Playthrough :=
  rested.act (.choose (.text "steal"))

/-- The bread is eaten, and then the cup is found again. -/
def eaten : Playthrough :=
  (bought.act (.choose (.text "eat"))).act (.pickUp "cup")

/-- Eating is undone, and things are picked up and put down. -/
def hungry : Playthrough :=
  (eaten.undo.2.act (.pickUp "cup")).act (.putDown "key")

theorem undo_restores_stall : "" ∉ (Inventory.withItems goods ["cup"]).ids ∧
    Reached visitor withKey ∧ withKey.inventory.ids = ["cup", "key"] ∧
    bought.inventory.ids = ["key", "bread"] ∧
    bought.undo = (true, { withKey with dice := bought.dice }) ∧
    Takes 2 withKey eaten ∧ Undoes 2 eaten hungry.undo.2 ∧
    hungry.inventory.ids = ["bread", "cup"] ∧
    hungry.undo.2 = { withKey with dice := hungry.undo.2.dice } := by
  have hids : "" ∉ (Inventory.withItems goods ["cup"]).ids := by decide
  have hreached : Reached visitor withKey := ⟨[.pickUp "key"], rfl⟩
  have hbuy := withKey.choose_eq_act (.text "buy") (by decide +kernel)
  have heat := bought.choose_eq_act (.text "eat") (by decide +kernel)
  have hsteal : (rested.choose (.text "steal")).1.isSome := by decide +kernel
  have hbought : Interlude (withKey.act (.choose (.text "buy"))) bought :=
    .act (.act (.act .refl trivial) trivial) hsteal
  have heaten : Interlude (bought.act (.choose (.text "eat"))) eaten := .act .refl trivial
  have hhungry : Interlude eaten.undo.2 hungry := .act (.act .refl trivial) trivial
  have htakes : Takes 2 withKey eaten := .succ hbuy hbought (.succ heat heaten .zero)
  have hundoes : Undoes 2 eaten hungry.undo.2 := .succ (.succ .zero .refl) hhungry
  obtain ⟨hone, hall⟩ := undo_restores hreached (.inl hids)
  exact ⟨hids, hreached, by decide +kernel, by decide +kernel, hone _ _ _ hbuy hbought,
    htakes, hundoes, by decide +kernel, hall _ _ _ htakes hundoes⟩

end Playthrough

end Gamebook
