import Gamebook.Inventory
import Gamebook.Session.Turn

/-!
# Play-throughs

A play-through follows a session from turn to turn and keeps an inventory beside it.  Taking a
choice applies its outcome to the inventory and records what came before, so that the choice can
be undone.  `takeChoice` does so step by step, the turn first; only the turn can fail, so a choice that
fails leaves everything as it was, except that the dice may have been thrown.
-/

namespace Gamebook

/-- What a play-through was like before a choice was taken. -/
structure Moment where
  session : Session
  ids : List String
  lastOutcome : Option Outcome

/-- A play-through: the story, outcomes for choices that declare none, and where the reader is.
The history begins with the latest moment. -/
structure Playthrough where
  story : Story
  outcomes : Table Outcome
  session : Session
  inventory : Inventory
  history : List Moment
  lastOutcome : Option Outcome
  dice : Dice

namespace Playthrough

/-- Begins a play-through at a session. -/
def begin (story : Story) (outcomes : Table Outcome) (session : Session) (inventory : Inventory)
    (dice : Dice) : Playthrough :=
  { story, outcomes, session, inventory, history := [], lastOutcome := none, dice }

/-- The outcome of a choice: its own, or the one that is registered for its id. -/
def outcomeOf (p : Playthrough) (c : Choice) : Option Outcome :=
  match c.outcome with
  | some o => some o
  | none => p.outcomes.get? c.id

/-- A choice with its outcome. -/
def withOutcome (p : Playthrough) (c : Choice) : Choice :=
  { c with outcome := p.outcomeOf c }

/-- The available choices with their outcomes. -/
def choices (p : Playthrough) : Except RangeError (List Choice) :=
  (p.story.available p.session).map fun available => available.map p.withOutcome

/-- Whether no choice is available. -/
def isFinished (p : Playthrough) : Except RangeError Bool :=
  (p.story.available p.session).map List.isEmpty

/-- The play-through at this moment. -/
def moment (p : Playthrough) : Moment :=
  ⟨p.session, p.inventory.ids, p.lastOutcome⟩

/-- The first choice of the current node that is asked for. -/
def asked? (p : Playthrough) (asked : Datum) : Option Choice :=
  (p.story.node? p.session.node).bind (·.asked? asked)

/-- The outcome of the first choice of the current node that is asked for. -/
def outcomeFor (p : Playthrough) (asked : Datum) : Option Outcome :=
  (p.asked? asked).bind p.outcomeOf

/-- What is done to a play-through, in steps that can fail.  What was assigned before a failure stays
assigned. -/
abbrev Procedure :=
  ExceptT TurnError (StateM Playthrough)

/-- Takes a turn of the session.  The dice that it throws are the play-through's own; the session is
only read. -/
def takeTurn (asked : Datum) : Procedure Session := do
  let p ← get
  let turn := p.story.turn p.session asked p.dice
  modify fun p => { p with dice := turn.dice }
  match turn.result with
  | .ok session => return session
  | .error e => throw e

/-- Takes the choice that is asked for, then applies its outcome. -/
def takeChoice (asked : Datum) : Procedure Unit := do
  let c? := (← get).asked? asked
  let session ← takeTurn asked
  modify fun p => { p with history := p.moment :: p.history }
  modify fun p => { p with session }
  let outcome := c?.bind (← get).outcomeOf
  if let some o := outcome then
    modify fun p => { p with inventory := (p.inventory.applyOutcome o).2 }
  modify fun p => { p with lastOutcome := outcome }

/-- Takes the choice that is asked for; the error, if that fails, and the play-through afterwards. -/
def choose (p : Playthrough) (asked : Datum) : Option TurnError × Playthrough :=
  match (takeChoice asked).run p with
  | (.ok (), p) => (none, p)
  | (.error e, p) => (some e, p)

/-- Moves the clock forward; it never moves back. -/
def advance (p : Playthrough) (delta : Number) : Except RangeError Playthrough :=
  if Number.lt 0 delta then
    (p.session.time.amount.add delta).map fun time => { p with session := p.session.atTime time }
  else .ok p

/-- Goes back to the moment before the last choice; returns whether there is one. -/
def undo (p : Playthrough) : Bool × Playthrough :=
  match p.history with
  | [] => (false, p)
  | m :: history =>
    (true, { p with
      session := m.session
      inventory := m.ids.foldl (fun inv id => (inv.add id).2) p.inventory.clear
      history
      lastOutcome := m.lastOutcome })

/-- Adds an item to the inventory. -/
def pickUp (p : Playthrough) (id : String) : Option Entity × Playthrough :=
  let (entity, inventory) := p.inventory.add id
  (entity, { p with inventory })

/-- Removes an item from the inventory; returns whether it was owned. -/
def putDown (p : Playthrough) (id : String) : Bool × Playthrough :=
  let (entity, inventory) := p.inventory.remove id
  (entity.isSome, { p with inventory })

end Playthrough

end Gamebook
