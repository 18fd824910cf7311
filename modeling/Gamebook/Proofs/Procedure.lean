import Gamebook.Playthrough

/-!
# Procedures that fail

A procedure assigns to a play-through step by step, and what it has assigned before it fails stays
assigned.  It is clean if all the same nothing but the dice is different where it fails.  That depends on
the order of its steps: a clean step may only be followed by steps that never fail (`Clean.bind`).

Taking a choice is clean since the turn, which may fail, comes before everything that is assigned
(`clean_takeChoice`).  What it does in the end is that of its steps together (`choose_of_error`,
`choose_of_ok`).
-/

namespace Gamebook.Playthrough

variable {α β : Type}

/-! ## Steps -/

theorem run_bind (x : Procedure α) (f : α → Procedure β) (p : Playthrough) :
    (x >>= f).run p = match x.run p with
      | (.ok a, q) => (f a).run q
      | (.error e, q) => (.error e, q) := by
  show (match x p with | (r, q) => ExceptT.bindCont f r q) = _
  rcases hx : x p with ⟨a | a, q⟩
  · simp only [ExceptT.run, hx]
    rfl
  · simp only [ExceptT.run, hx]
    rfl

theorem run_pure (a : α) (p : Playthrough) : (pure a : Procedure α).run p = (.ok a, p) := rfl

theorem run_get (p : Playthrough) : (get : Procedure Playthrough).run p = (.ok p, p) := rfl

theorem run_modify (f : Playthrough → Playthrough) (p : Playthrough) :
    (modify f : Procedure Unit).run p = (.ok (), f p) := rfl

theorem run_throw (e : TurnError) (p : Playthrough) :
    (throw e : Procedure α).run p = (.error e, p) := rfl

theorem run_takeTurn (asked : Datum) (p : Playthrough) :
    (takeTurn asked).run p = ((p.story.turn p.session asked p.dice).result,
      { p with dice := (p.story.turn p.session asked p.dice).dice }) := by
  simp only [takeTurn, run_bind, run_get, run_modify]
  split
  · next h => rw [h, run_pure]
  · next h => rw [h, run_throw]

/-! ## Clean procedures -/

/-- A procedure that never fails. -/
def Sure (x : Procedure α) : Prop :=
  ∀ p, ∃ a q, x.run p = (.ok a, q)

/-- A procedure that changes the dice at most where it fails. -/
def Clean (x : Procedure α) : Prop :=
  ∀ p e q, x.run p = (.error e, q) → q = { p with dice := q.dice }

theorem sure_modify (f : Playthrough → Playthrough) : Sure (modify f : Procedure Unit) :=
  fun p => ⟨(), f p, run_modify f p⟩

theorem Sure.bind {x : Procedure α} {f : α → Procedure β} (hx : Sure x) (hf : ∀ a, Sure (f a)) :
    Sure (x >>= f) := by
  intro p
  obtain ⟨a, q, hq⟩ := hx p
  obtain ⟨b, r, hr⟩ := hf a q
  exact ⟨b, r, by simp only [run_bind, hq, hr]⟩

theorem Sure.get_bind {f : Playthrough → Procedure β} (hf : ∀ p, Sure (f p)) : Sure (get >>= f) :=
  Sure.bind (fun p => ⟨p, p, run_get p⟩) hf

/-- Behind a clean step, only steps that never fail keep a procedure clean. -/
theorem Clean.bind {x : Procedure α} {f : α → Procedure β} (hx : Clean x) (hf : ∀ a, Sure (f a)) :
    Clean (x >>= f) := by
  intro p e q h
  rw [run_bind] at h
  split at h
  · next a r _ =>
    obtain ⟨b, t, ht⟩ := hf a r
    rw [ht] at h
    cases h
  · next hfail =>
    cases h
    exact hx p _ _ hfail

/-- In front of a clean step, looking is harmless. -/
theorem Clean.get_bind {f : Playthrough → Procedure β} (hf : ∀ p, Clean (f p)) :
    Clean (get >>= f) := by
  intro p e q h
  simp only [run_bind, run_get] at h
  exact hf p p e q h

theorem clean_takeTurn (asked : Datum) : Clean (takeTurn asked) := by
  intro p e q h
  rw [run_takeTurn] at h
  obtain ⟨-, rfl⟩ := Prod.mk.inj h
  rfl

/-- Taking a choice fails in the turn or not at all, and the turn comes first. -/
theorem clean_takeChoice (asked : Datum) : Clean (takeChoice asked) := by
  refine .get_bind fun p => (clean_takeTurn asked).bind fun session => ?_
  -- the history, the session, the inventory and the outcome are assigned without failing
  refine (sure_modify _).bind fun _ => (sure_modify _).bind fun _ => .get_bind fun q => ?_
  dsimp only
  split
  · exact (sure_modify _).bind fun _ => sure_modify _
  · exact sure_modify _

/-! ## Taking a choice -/

variable {p : Playthrough} {asked : Datum} {dice : Dice}

theorem choose_of_error {e : TurnError}
    (h : p.story.turn p.session asked p.dice = ⟨.error e, dice⟩) :
    p.choose asked = (some e, { p with dice }) := by
  simp only [choose, takeChoice, run_bind, run_get, run_takeTurn, h]

theorem choose_of_ok {session : Session}
    (h : p.story.turn p.session asked p.dice = ⟨.ok session, dice⟩) :
    p.choose asked = (none, { p with
      session
      inventory :=
        match p.outcomeFor asked with
        | some o => (p.inventory.applyOutcome o).2
        | none => p.inventory
      history := p.moment :: p.history
      lastOutcome := p.outcomeFor asked
      dice }) := by
  -- what an outcome depends on is not assigned before the outcome is looked up
  have houtcome : (p.asked? asked).bind (outcomeOf { p with
      session, history := p.moment :: p.history, dice }) = p.outcomeFor asked := rfl
  have hmoment : moment { p with dice } = p.moment := rfl
  simp only [choose, takeChoice, run_bind, run_get, run_takeTurn, h, run_modify, hmoment, houtcome]
  cases p.outcomeFor asked with
  | none => simp only [run_modify]
  | some o => simp only [run_bind, run_modify]

/-- A choice that fails changes the dice at most. -/
theorem choose_of_isSome (h : (p.choose asked).1.isSome) :
    (p.choose asked).2 = { p with dice := (p.choose asked).2.dice } := by
  unfold choose at h ⊢
  split at h
  · cases h
  · next hrun => exact clean_takeChoice asked p _ _ hrun

end Gamebook.Playthrough
