import Gamebook.Proofs.Independence
import Gamebook.Proofs.Progress

/-!
# History and clock

The times of a play-through are the time now and, behind it, the times at which the choices of the
history were taken, the latest first.  Taking a choice puts a later time in front of them, an advance
moves the first of them forward or does nothing, undoing removes the first of them, and anything else
leaves them as they are.  So if they are integers to begin with and advances are by integers, then they
stay integers and in order (`Playthrough.Chronological.act`).

What the actions of the story reply tells how long the history is: each choice that was taken is one
moment more, and each one that was undone is one less (`Playthrough.length_history_act`).
`Playthrough.history_chronological` says both of a play-through and whatever is done to it.
-/

namespace Gamebook

theorem Number.lt_int_iff {a b : Int} : Number.lt (.int a) (.int b) = true ↔ a < b := by
  have hone : (0 : Int) < Binary64.one := Int.natCast_pos.2 Binary64.one_pos
  simp only [lt, place?, Place.le, Bool.not_eq_true', decide_eq_false_iff_not, not_le,
    Int.mul_lt_mul_right hone]

/-- Whether an action of the story took a choice. -/
def Reply.took : Reply → Bool
  | .session (.ok _) => true
  | _ => false

/-- Whether an action of the story undid a choice. -/
def Reply.undid : Reply → Bool
  | .undone done => done
  | _ => false

/-- An action that, if it advances the clock, does so by an integer. -/
def Action.IsWhole : Action → Prop
  | .advance delta => ∃ n, delta = .int n
  | _ => True

namespace Playthrough

/-- The time now and the times of the history, the latest first. -/
def times (p : Playthrough) : List Number :=
  p.session.time.amount :: p.history.map fun m => m.session.time.amount

/-- The times are integers, and each of them is later than the ones behind it. -/
def Chronological (p : Playthrough) : Prop :=
  ∃ ts : List Int, p.times = ts.map .int ∧ ts.Pairwise (· > ·)

variable {p : Playthrough} {action : Action} {asked : Datum}

/-! ## Times -/

/-- A choice that is taken puts the next time in front of the times; one that fails keeps them. -/
theorem times_choose (p : Playthrough) (asked : Datum) :
    (p.choose asked).2.times = p.session.time.amount.next :: p.times ∨
      (p.choose asked).2.times = p.times := by
  have hturn := p.choose_turn asked
  cases hresult : (p.story.turn p.session asked p.dice).result with
  | error e =>
    simp only [hresult] at hturn
    obtain ⟨-, -, -, hsession, hhistory⟩ := hturn
    right
    rw [times, hsession, hhistory, times]
  | ok session =>
    simp only [hresult] at hturn
    obtain ⟨-, -, -, hsession, hhistory⟩ := hturn
    left
    rw [times, hsession, hhistory, Story.turn_time hresult]
    rfl

theorem times_undo (p : Playthrough) : p.undo.2.times = p.times ∨ p.undo.2.times = p.times.tail := by
  unfold undo
  split
  · exact .inl rfl
  · next m history hhistory =>
    right
    rw [times, times, hhistory]
    rfl

namespace Chronological

theorem choose (h : p.Chronological) (asked : Datum) : (p.choose asked).2.Chronological := by
  obtain ⟨ts, hts, horder⟩ := h
  rcases p.times_choose asked with htimes | htimes
  · cases ts with
    | nil => cases hts
    | cons now past =>
      have hnow : p.session.time.amount = .int now := (List.cons.inj hts).1
      refine ⟨(now + 1) :: now :: past, ?_, ?_⟩
      · rw [htimes, hts, hnow]
        rfl
      · refine List.pairwise_cons.2 ⟨List.forall_mem_cons.2 ⟨by omega, fun t ht => ?_⟩, horder⟩
        have hlater : now > t := (List.pairwise_cons.1 horder).1 t ht
        omega
  · exact ⟨ts, htimes.trans hts, horder⟩

theorem advance (h : p.Chronological) (n : Int) : (p.act (.advance (.int n))).Chronological := by
  obtain ⟨ts, hts, horder⟩ := h
  cases ts with
  | nil => cases hts
  | cons now past =>
    obtain ⟨hnow, hpast⟩ := List.cons.inj hts
    by_cases hforward : Number.lt 0 (.int n) = true
    · have hn : 0 < n := Number.lt_int_iff.1 hforward
      have hact : p.act (.advance (.int n)) =
          { p with session := p.session.atTime (.int (now + n)) } := by
        rw [act, Playthrough.advance, if_pos hforward, hnow]
        rfl
      refine ⟨(now + n) :: past, ?_, List.pairwise_cons.2 ⟨fun t ht => ?_, ?_⟩⟩
      · rw [hact]
        exact congrArg (Number.int (now + n) :: ·) hpast
      · have hlater : now > t := (List.pairwise_cons.1 horder).1 t ht
        omega
      · exact (List.pairwise_cons.1 horder).2
    · have hact : p.act (.advance (.int n)) = p := by
        rw [act, Playthrough.advance, if_neg hforward]
      rw [hact]
      exact ⟨now :: past, hts, horder⟩

theorem undo (h : p.Chronological) : p.undo.2.Chronological := by
  obtain ⟨ts, hts, horder⟩ := h
  rcases p.times_undo with htimes | htimes
  · exact ⟨ts, htimes.trans hts, horder⟩
  · exact ⟨ts.tail, by rw [htimes, hts, List.map_tail], horder.tail⟩

/-- Times stay integers and in order. -/
theorem act (h : p.Chronological) (haction : action.IsWhole) : (p.act action).Chronological := by
  cases action with
  | choose asked => exact h.choose asked
  | advance delta =>
    obtain ⟨n, rfl⟩ := haction
    exact h.advance n
  | undo => exact h.undo
  | pickUp _ | putDown _ | empty | receive _ => exact h

end Chronological

/-! ## Length of the history -/

/-- The number of moments after an action, from what it replies. -/
theorem length_history_act (p : Playthrough) (action : Action) :
    (p.act action).history.length + (p.reply action).toList.countP Reply.undid =
      p.history.length + (p.reply action).toList.countP Reply.took := by
  cases action with
  | choose asked =>
    obtain ⟨hreply, -, -, hafter⟩ := p.choose_turn asked
    rw [hreply, act]
    split at hafter
    · next e he => rw [he, hafter.2]; rfl
    · next session hsession => rw [hsession, hafter.2]; rfl
  | advance delta =>
    obtain ⟨session, hsame⟩ := p.exists_act_advance delta
    rw [hsame]
    rfl
  | undo =>
    rw [act, reply, Playthrough.undo]
    cases hhistory : p.history with
    | nil => simp [hhistory, Reply.undid, Reply.took]
    | cons m history => simp [Reply.undid, Reply.took]
  | pickUp _ | putDown _ | empty | receive _ => rfl

theorem countP_course_cons (f : Reply → Bool) (p : Playthrough) (action : Action)
    (actions : List Action) :
    (p.course (action :: actions)).countP (fun r => f r.1) =
      (p.reply action).toList.countP f +
        ((p.act action).course actions).countP fun r => f r.1 := by
  rw [course]
  cases p.reply action with
  | none => simp
  | some reply => simp [List.countP_cons, Nat.add_comm]

/-- The number of moments after several actions, from what they reply. -/
theorem length_history_foldl (p : Playthrough) (actions : List Action) :
    (actions.foldl act p).history.length + (p.course actions).countP (fun r => r.1.undid) =
      p.history.length + (p.course actions).countP (fun r => r.1.took) := by
  induction actions generalizing p with
  | nil => rfl
  | cons action actions ih =>
    have hfirst := p.length_history_act action
    have hrest := ih (p.act action)
    rw [List.foldl_cons, countP_course_cons, countP_course_cons]
    omega

/-! ## Runs -/

variable {story : Story} {outcomes : Table Outcome} {session : Session} {inventory : Inventory}
  {dice : Dice} {actions : List Action}

/-- In a play-through that begins at an integer time, whatever choices are asked for, by whatever
integers the clock is advanced and whatever else is done, the history has as many moments as choices
were taken, less those that were undone.  The times of the moments are integers that increase strictly
from the oldest to the latest, and now is later than the latest of them. -/
theorem history_chronological {n : Int} (htime : session.time.amount = .int n)
    (hactions : ∀ action ∈ actions, action.IsWhole) :
    let p := begin story outcomes session inventory dice
    let q := actions.foldl act p
    q.history.length + (p.course actions).countP (fun r => r.1.undid) =
        (p.course actions).countP (fun r => r.1.took) ∧
      q.Chronological := by
  intro p q
  have hlength := p.length_history_foldl actions
  have hbegin : p.Chronological := by
    refine ⟨[n], ?_, List.pairwise_singleton _ _⟩
    show [session.time.amount] = _
    rw [htime]
    rfl
  refine ⟨hlength.trans (Nat.zero_add _), ?_⟩
  exact List.foldlRecOn actions act hbegin fun _ hr action haction => hr.act (hactions action haction)

/-- More is done at the stall: time is not turned back, nothing is stolen, bread is eaten and bought. -/
def errand : List Action :=
  visit ++ [.advance (.int (-5)), .choose (.text "steal"), .choose (.text "eat"), .advance (.int 7),
    .choose (.text "buy")]

theorem history_chronological_stall :
    (stall.begin {}).time.amount = .int 0 ∧ (∀ action ∈ errand, action.IsWhole) ∧
      (visitor.course errand).countP (fun r => r.1.took) = 4 ∧
      (visitor.course errand).countP (fun r => r.1.undid) = 1 ∧
      (errand.foldl act visitor).history.length = 3 ∧
      (errand.foldl act visitor).times = [10, 9, 1, 0] ∧
      (errand.foldl act visitor).Chronological := by
  have htime : (stall.begin {}).time.amount = .int 0 := rfl
  have hwhole : ∀ action ∈ errand, action.IsWhole := by
    simp [errand, visit, Action.IsWhole]
  have htook : (visitor.course errand).countP (fun r => r.1.took) = 4 := by decide +kernel
  have hundid : (visitor.course errand).countP (fun r => r.1.undid) = 1 := by decide +kernel
  obtain ⟨hlength, horder⟩ := @history_chronological stall
    (.ofEntries [("eat", ⟨" remove_item", some "bread"⟩)]) (stall.begin {})
    (.withItems goods ["cup"]) (.ofList [1]) errand 0 htime hwhole
  rw [← visitor] at hlength horder
  exact ⟨htime, hwhole, htook, hundid, by omega, by decide +kernel, horder⟩

end Playthrough

end Gamebook
