import Gamebook.Proofs.Undo

/-!
# What the story does not see

Choices, the clock and undoing belong to the story; the inventory is kept beside it.  Two play-throughs
are alike if they agree on the story, the session, the dice and the sessions of their histories,
whatever is owned, whatever there is to own, and whatever outcomes are registered.

Actions of the story keep two play-throughs alike and get the same replies from both
(`Playthrough.Alike.act`, `Playthrough.Alike.reply`), and actions on the inventory leave a play-through
like itself (`Playthrough.alike_act`).  So a run looks like the run of its actions of the story alone,
and two runs with the same actions of the story look the same (`Playthrough.items_do_not_interfere`).
-/

namespace Gamebook

/-- Whether an action belongs to the story; the others change the inventory only. -/
def Action.drives : Action → Bool
  | .choose _ | .advance _ | .undo => true
  | .pickUp _ | .putDown _ | .empty | .receive _ => false

/-- What an action of the story gives back. -/
inductive Reply where
  | session (result : Except TurnError Session)
  | time (result : Except RangeError Quantity)
  | undone (done : Bool)

/-- What a play-through shows of the story.  Which choices are available is settled by evaluating
conditions, which can fail. -/
structure View where
  session : Session
  available : Except RangeError (List String)
  finished : Except RangeError Bool
  depth : Nat

namespace Playthrough

/-- What the play-through shows of the story. -/
def view (p : Playthrough) : View where
  session := p.session
  available := p.choices.map fun choices => choices.map Choice.id
  finished := p.isFinished
  depth := p.history.length

/-- What an action of the story gives back. -/
def reply (p : Playthrough) : Action → Option Reply
  | .choose asked =>
    match p.choose asked with
    | (some e, _) => some (.session (.error e))
    | (none, q) => some (.session (.ok q.session))
  | .advance delta => some (.time ((p.advance delta).map (·.session.time)))
  | .undo => some (.undone p.undo.1)
  | .pickUp _ | .putDown _ | .empty | .receive _ => none

/-- The reply to every action of the story, and what the play-through shows after it. -/
def course (p : Playthrough) : List Action → List (Reply × View)
  | [] => []
  | action :: actions =>
    match p.reply action with
    | some reply => (reply, (p.act action).view) :: (p.act action).course actions
    | none => (p.act action).course actions

/-- Two play-throughs that differ in what belongs to their inventories only. -/
structure Alike (p q : Playthrough) : Prop where
  story : p.story = q.story
  session : p.session = q.session
  dice : p.dice = q.dice
  sessions : p.history.map Moment.session = q.history.map Moment.session

variable {p q r : Playthrough} {action : Action}

theorem reply_eq_none_iff : p.reply action = none ↔ action.drives = false := by
  cases action with
  | choose asked =>
    unfold reply
    simp only [Action.drives]
    split <;> simp
  | _ => simp [reply, Action.drives]

namespace Alike

theorem refl (p : Playthrough) : Alike p p :=
  ⟨rfl, rfl, rfl, rfl⟩

theorem symm (h : Alike p q) : Alike q p :=
  ⟨h.story.symm, h.session.symm, h.dice.symm, h.sessions.symm⟩

theorem trans (h : Alike p q) (h' : Alike q r) : Alike p r :=
  ⟨h.story.trans h'.story, h.session.trans h'.session, h.dice.trans h'.dice,
    h.sessions.trans h'.sessions⟩

end Alike

/-! ## What is shown -/

/-- The outcomes that are found for choices do not change their ids. -/
theorem map_id_choices (p : Playthrough) :
    (p.choices.map fun choices => choices.map Choice.id) =
      (p.story.available p.session).map fun available => available.map Choice.id := by
  unfold choices
  cases p.story.available p.session with
  | error e => rfl
  | ok available => exact congrArg Except.ok (List.map_map ..)

theorem Alike.view (h : Alike p q) : p.view = q.view := by
  have hdepth : p.history.length = q.history.length := by
    simpa only [List.length_map] using congrArg List.length h.sessions
  unfold Playthrough.view isFinished
  rw [map_id_choices, map_id_choices, h.story, h.session, hdepth]

/-! ## One action -/

/-- A choice asks the story for a turn; what it gives back, the session, the dice and the sessions of
the history come from that turn. -/
theorem choose_turn (p : Playthrough) (asked : Datum) :
    let turn := p.story.turn p.session asked p.dice
    let q := (p.choose asked).2
    p.reply (.choose asked) = some (.session turn.result) ∧ q.story = p.story ∧ q.dice = turn.dice ∧
      match turn.result with
      | .error _ => q.session = p.session ∧ q.history = p.history
      | .ok session => q.session = session ∧ q.history = p.moment :: p.history := by
  intro turn q
  rcases hturn : p.story.turn p.session asked p.dice with ⟨e | session, dice⟩
  · simp only [turn, q, reply, hturn, choose_of_error hturn]
    exact ⟨trivial, trivial, trivial, trivial, trivial⟩
  · simp only [turn, q, reply, hturn, choose_of_ok hturn]
    exact ⟨trivial, trivial, trivial, trivial, trivial⟩

theorem Alike.choose (h : Alike p q) (asked : Datum) :
    p.reply (.choose asked) = q.reply (.choose asked) ∧
      Alike (p.choose asked).2 (q.choose asked).2 := by
  have hp := p.choose_turn asked
  have hq := q.choose_turn asked
  rw [h.story, h.session, h.dice] at hp
  obtain ⟨hpreply, hpstory, hpdice, hpafter⟩ := hp
  obtain ⟨hqreply, hqstory, hqdice, hqafter⟩ := hq
  refine ⟨hpreply.trans hqreply.symm, ?_⟩
  have hdice := hpdice.trans hqdice.symm
  have hstory := hpstory.trans (hqstory.symm)
  split at hpafter
  · next e he =>
    rw [he] at hqafter
    refine ⟨hstory, ?_, hdice, ?_⟩
    · rw [hpafter.1, hqafter.1]
    · rw [hpafter.2, hqafter.2, h.sessions]
  · next session he =>
    rw [he] at hqafter
    refine ⟨hstory, ?_, hdice, ?_⟩
    · rw [hpafter.1, hqafter.1]
    · rw [hpafter.2, hqafter.2, List.map_cons, List.map_cons, h.sessions]
      simp only [moment, h.session]

theorem Alike.advance (h : Alike p q) (delta : Number) :
    p.reply (.advance delta) = q.reply (.advance delta) ∧
      Alike (p.act (.advance delta)) (q.act (.advance delta)) := by
  simp only [Playthrough.reply, Playthrough.act, Playthrough.advance, h.session]
  by_cases hforward : Number.lt 0 delta
  · simp only [if_pos hforward]
    cases q.session.time.amount.add delta with
    | error e => exact ⟨rfl, h⟩
    | ok time => exact ⟨rfl, h.story, rfl, h.dice, h.sessions⟩
  · simp only [if_neg hforward, map_ok, h.session]
    exact ⟨trivial, h⟩

theorem Alike.undo (h : Alike p q) : p.undo.1 = q.undo.1 ∧ Alike p.undo.2 q.undo.2 := by
  have hsessions := h.sessions
  unfold Playthrough.undo
  cases hp : p.history with
  | nil =>
    rw [hp, List.map_nil] at hsessions
    rw [List.map_eq_nil_iff.1 hsessions.symm]
    exact ⟨rfl, h⟩
  | cons m history =>
    rw [hp, List.map_cons] at hsessions
    obtain ⟨m', history', hq, hsession, hrest⟩ := List.map_eq_cons_iff.1 hsessions.symm
    rw [hq]
    exact ⟨rfl, h.story, hsession.symm, h.dice, hrest.symm⟩

/-- An action of the story gets the same reply from play-throughs that are alike. -/
theorem Alike.reply (h : Alike p q) (action : Action) : p.reply action = q.reply action := by
  cases action with
  | choose asked => exact (h.choose asked).1
  | advance delta => exact (h.advance delta).1
  | undo => exact congrArg (some ∘ Reply.undone) h.undo.1
  | pickUp _ | putDown _ | empty | receive _ => rfl

/-- Play-throughs that are alike stay so if the same is done to both. -/
theorem Alike.act (h : Alike p q) (action : Action) : Alike (p.act action) (q.act action) := by
  cases action with
  | choose asked => exact (h.choose asked).2
  | advance delta => exact (h.advance delta).2
  | undo => exact h.undo.2
  | pickUp _ | putDown _ | empty | receive _ => exact ⟨h.story, h.session, h.dice, h.sessions⟩

/-- An action on the inventory changes nothing else. -/
theorem alike_act (p : Playthrough) (h : action.drives = false) : Alike (p.act action) p := by
  cases action with
  | choose _ | advance _ | undo => cases h
  | pickUp _ | putDown _ | empty | receive _ => exact ⟨rfl, rfl, rfl, rfl⟩

/-! ## Runs -/

/-- A run looks like the run of its actions of the story alone. -/
theorem Alike.filter_drives (h : Alike p q) (actions : List Action) :
    p.course actions = q.course (actions.filter Action.drives) ∧
      Alike (actions.foldl Playthrough.act p)
        ((actions.filter Action.drives).foldl Playthrough.act q) := by
  induction actions generalizing p q with
  | nil => exact ⟨rfl, h⟩
  | cons action actions ih =>
    cases hdrives : action.drives with
    | false =>
      rw [List.filter_cons_of_neg (by simp [hdrives]), List.foldl_cons, course,
        reply_eq_none_iff.2 hdrives]
      exact ih ((alike_act p hdrives).trans h)
    | true =>
      obtain ⟨hcourse, hend⟩ := ih (h.act action)
      rw [List.filter_cons_of_pos hdrives, List.foldl_cons, List.foldl_cons]
      refine ⟨?_, hend⟩
      rw [course, course, h.reply action, (h.act action).view, hcourse]

variable {story : Story} {outcomes outcomes' : Table Outcome} {session : Session}
  {catalog catalog' : Catalog} {items items' : List String} {dice : Dice}
  {actions actions' : List Action}

/-- The inventory does not influence the story.  Two play-throughs that begin at the same session of the
same story with the same dice may differ in the catalog, in what is owned and in the outcomes that are
registered, and other actions on the inventory may come between.  If the actions of the story are the
same, then each of them gives the same back in both, what both show of the story after each of them is
the same, and so it is at the end. -/
theorem items_do_not_interfere
    (h : actions.filter Action.drives = actions'.filter Action.drives) :
    let p := begin story outcomes session (.withItems catalog items) dice
    let q := begin story outcomes' session (.withItems catalog' items') dice
    p.course actions = q.course actions' ∧
      (actions.foldl act p).view = (actions'.foldl act q).view := by
  intro p q
  have hbegin : Alike p q := ⟨rfl, rfl, rfl, rfl⟩
  obtain ⟨hcourse, hend⟩ := hbegin.filter_drives actions
  obtain ⟨hcourse', hend'⟩ := (Alike.refl q).filter_drives actions'
  rw [h] at hcourse hend
  exact ⟨hcourse.trans hcourse'.symm, (hend.trans hend'.symm).view⟩

/-! ### At the stall -/

/-- Someone who comes to the stall with nothing, to whom eating gives a crumb. -/
def beggar : Playthrough :=
  begin stall (.ofEntries [("eat", ⟨"ADD_ITEM", some "crumb"⟩)]) (stall.begin {})
    (.withItems (.ofItems [⟨"crumb", "", "", .int 0⟩]) []) (.ofList [1])

/-- Bread is bought and eaten, and eating is undone, with other things picked up and put down. -/
def visit : List Action :=
  [.pickUp "key", .choose (.text "buy"), .putDown "cup", .choose (.text "eat"), .advance (.int 2),
    .undo]

/-- The same at the stall, with other things done to the inventory. -/
def charity : List Action :=
  [.choose (.text "buy"), .choose (.text "eat"), .putDown "crumb", .pickUp "key", .advance (.int 2),
    .empty, .undo, .pickUp "crumb"]

theorem items_do_not_interfere_stall :
    visit.filter Action.drives = charity.filter Action.drives ∧
      visitor.course visit = beggar.course charity ∧
      (visit.foldl act visitor).view = (charity.foldl act beggar).view ∧
      (visit.foldl act visitor).view.depth = 1 ∧
      (visit.foldl act visitor).inventory.ids = ["key", "bread"] ∧
      (charity.foldl act beggar).inventory.ids = ["crumb"] := by
  have hsame : visit.filter Action.drives = charity.filter Action.drives := rfl
  obtain ⟨hcourse, hview⟩ : visitor.course visit = beggar.course charity ∧
      (visit.foldl act visitor).view = (charity.foldl act beggar).view :=
    items_do_not_interfere hsame
  exact ⟨hsame, hcourse, hview, by decide +kernel, by decide +kernel, by decide +kernel⟩

end Playthrough

end Gamebook
