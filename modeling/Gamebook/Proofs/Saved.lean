import Gamebook.Proofs.Progress
import Gamebook.Session.Document

/-!
# Saved sessions read again

A session that was begun or read from a document has flags that are truth values, resources that are
numbers, variables that are scalars, and a whole number for its time (`State.Plain`).  Effects write
nothing else, so all sessions of its runs are like that.  What is saved of such a session has values of
exactly the types of the fields, so a checker that keeps them reads it as the same session, with every
value in the kind that it has (`Session.ofDatum_toDatum`), and a run that is saved and read again in
between is the same run (`Story.saved_session_reads_back`).
-/

namespace Gamebook

namespace Table

variable {α β γ : Type}

theorem map_map (f : α → β) (g : β → γ) (t : Table α) : (t.map f).map g = t.map (g ∘ f) :=
  eq_of_entries (List.map_map ..)

theorem map_put (f : α → β) (t : Table α) (name : String) (value : α) :
    (t.put name value).map f = (t.map f).put name (f value) := by
  have key : ∀ es : List (String × α), (putEntry name value es).map (fun e => (e.1, f e.2)) =
      putEntry name (f value) (es.map fun e => (e.1, f e.2)) := by
    intro es
    induction es with
    | nil => rfl
    | cons e es ih =>
      by_cases h : e.1 = name
      · simp [putEntry, h]
      · simp [putEntry, h, ih]
  exact eq_of_entries (key t.entries)

end Table

/-- A state with values of the kinds that documents and effects give. -/
structure State.Plain (s : State) : Prop where
  flags : ∃ t : Table Bool, s.flags = t.map .truth
  resources : ∃ t : Table Number, s.resources = t.map .number
  vars : ∃ t : Table Scalar, s.vars = t.map Scalar.toDatum
  time : ∃ n : Int, s.time = .number (.int n)

/-! ## Plain states stay plain -/

namespace Effect

variable {e : Effect} {es : List Effect} {s t : State}

theorem Write.plain (h : Write e s t) (hs : s.Plain) : t.Plain := by
  cases h with
  | @setFlag _ key value =>
    obtain ⟨flags, hflags⟩ := hs.flags
    exact { hs with flags := ⟨flags.put key value, by rw [Table.map_put, hflags]⟩ }
  | @addResource _ key _ amount | @multiplyResource _ key _ amount | @setResource _ key amount =>
    obtain ⟨resources, hresources⟩ := hs.resources
    exact { hs with resources := ⟨resources.put key amount, by rw [Table.map_put, hresources]⟩ }
  | @setVariable _ key value =>
    obtain ⟨vars, hvars⟩ := hs.vars
    exact { hs with vars := ⟨vars.put key value, by rw [Table.map_put, hvars]⟩ }

theorem plain_of_writes (h : Relation.ReflTransGen (WritesOfAll es) s t) (hs : s.Plain) :
    t.Plain := by
  induction h with
  | refl => exact hs
  | tail _ hwrite ih =>
    obtain ⟨_, -, _, _, -, hwrite⟩ := hwrite
    exact hwrite.plain ih

end Effect

namespace Story

variable {story : Story} {s t : Session} {asked : Datum} {dice : Dice}

theorem turn_plain (h : (story.turn s asked dice).result = .ok t) (hs : s.Plain) : t.Plain := by
  obtain ⟨_, _, -, -, written, hwrites, ht⟩ := turn_writes h
  obtain ⟨n, hn⟩ := hs.time
  rw [ht, hn]
  exact { Effect.plain_of_writes hwrites hs with time := ⟨n + 1, rfl⟩ }

theorem plain_begin (story : Story) : (story.begin {}).Plain where
  flags := ⟨story.flags, rfl⟩
  resources := ⟨story.resources, rfl⟩
  vars := ⟨∅, rfl⟩
  time := ⟨0, rfl⟩

theorem Run.plain {turns : List Played} (run : story.Run s turns) (hs : s.Plain) :
    ∀ t ∈ snapshots s turns, t.Plain := by
  intro t ht
  obtain ⟨n, hn⟩ := List.mem_iff_getElem?.1 ht
  exact run.snapshot_induction (P := fun _ t => t.Plain) hs
    (fun _ _ _ _ _ hs turn => turn_plain turn hs) n t hn

end Story

/-! ## Saving and reading -/

namespace Session

variable {checker : Checker} {s : Session}

theorem plain_of_ofDatum {d : Datum} (h : ofDatum checker d = .ok s) : s.Plain := by
  unfold ofDatum at h
  split at h
  · cases h
  · cases h
  · next form _ =>
    cases h
    exact ⟨⟨form.flags, rfl⟩, ⟨form.resources, rfl⟩, ⟨form.vars, rfl⟩, ⟨form.time, rfl⟩⟩

/-- The document of a plain session has values of exactly the right types. -/
theorem exists_isSession_toDatum (h : s.Plain) :
    ∃ form : Document.SessionForm, Document.IsObject Document.IsSession s.toDatum form ∧
      form.session = s := by
  obtain ⟨⟨_, _, _, _⟩, node⟩ := s
  obtain ⟨⟨flags, rfl⟩, ⟨resources, rfl⟩, ⟨vars, rfl⟩, ⟨n, rfl⟩⟩ := h
  refine ⟨⟨node, flags, resources, vars, n⟩, ⟨_, rfl, rfl, ?_, ?_, ?_, rfl⟩, rfl⟩
  · exact Document.isTable_same (f := Datum.truth) (fun _ => rfl) flags
  · have hamounts : (resources.map Quantity.number).map Quantity.toDatum =
        resources.map Datum.number := Table.map_map ..
    have key : Document.IsTable Document.IsNumber (.object (resources.map Datum.number).entries)
        resources := Document.isTable_same (f := Datum.number) (fun _ => rfl) resources
    rwa [← hamounts] at key
  · exact Document.isTable_same (f := Scalar.toDatum) (fun _ => rfl) vars

/-- What is saved of a plain session reads as that session. -/
theorem ofDatum_toDatum (hkeeps : checker.KeepsSessions) (h : s.Plain) :
    ofDatum checker s.toDatum = .ok s := by
  obtain ⟨form, hform, hsession⟩ := exists_isSession_toDatum h
  unfold ofDatum
  rw [hkeeps _ _ hform]
  exact congrArg Except.ok hsession

end Session

namespace Story

/-- Turns that succeed one after the other, where the session is saved and read again at any points in
between. -/
inductive InterruptedRun (checker : Checker) (story : Story) : Session → List Played → Prop where
  | nil {s : Session} : InterruptedRun checker story s []
  | cons {s t : Session} {asked : Datum} {dice : Dice} {rest : List Played}
      (turn : (story.turn s asked dice).result = .ok t)
      (run : InterruptedRun checker story t rest) :
    InterruptedRun checker story s (⟨s, asked, dice, t⟩ :: rest)
  | reread {s r : Session} {turns : List Played}
      (read : Session.ofDatum checker s.toDatum = .ok r)
      (run : InterruptedRun checker story r turns) : InterruptedRun checker story s turns

variable {checker : Checker} {story : Story} {s : Session}

theorem Run.interrupted {turns : List Played} (run : story.Run s turns) :
    story.InterruptedRun checker s turns := by
  induction run with
  | nil => exact .nil
  | cons turn _ ih => exact .cons turn ih

theorem InterruptedRun.run {turns : List Played} (run : story.InterruptedRun checker s turns)
    (hkeeps : checker.KeepsSessions) (hs : s.Plain) : story.Run s turns := by
  induction run with
  | nil => exact .nil
  | cons turn _ ih => exact .cons turn (ih (turn_plain turn hs))
  | reread read _ ih =>
    obtain rfl := Except.ok.inj ((Session.ofDatum_toDatum hkeeps hs).symm.trans read)
    exact ih hs

/-- Every session of a run that begins with a session from a document, or with the beginning of a story,
can be saved and reads back as the same session.  So the runs that are saved and read again at any
points are the runs that are not interrupted. -/
theorem saved_session_reads_back (hkeeps : checker.KeepsSessions)
    (hs : (∃ d, Session.ofDatum checker d = .ok s) ∨ ∃ source : Story, s = source.begin {})
    (story : Story) :
    (∀ turns, story.Run s turns →
      ∀ t ∈ snapshots s turns, Session.ofDatum checker t.toDatum = .ok t) ∧
    ∀ turns, story.InterruptedRun checker s turns ↔ story.Run s turns := by
  have hplain : s.Plain := by
    rcases hs with ⟨d, hd⟩ | ⟨source, rfl⟩
    · exact Session.plain_of_ofDatum hd
    · exact source.plain_begin
  refine ⟨fun turns run t ht => ?_,
    fun turns => ⟨fun run => run.run hkeeps hplain, Run.interrupted⟩⟩
  exact Session.ofDatum_toDatum hkeeps (run.plain hplain t ht)

/-- Amounts that are infinite, undefined and out of range. -/
def oddAmounts : List (String × Number) :=
  [("debt", .float (.infinite true)), ("luck", .float (.undefined .written)),
    ("stars", .int (10 ^ 400))]

/-- A saved session with odd amounts, in which some values are spelled by texts. -/
def oddDatum : Datum :=
  .object [("nodeId", .text "valley/mill"), ("flags", .object [("open", .text "yes")]),
    ("resources", .object (("corn", .text "3") :: oddAmounts.map fun e => (e.1, .number e.2))),
    ("variables", .object [("name", .text "5"), ("level", .int 5), ("married", .truth true)])]

/-- A session with odd amounts, where some values are added to it and to its tables. -/
def oddSession (flags vars : List (String × Datum)) (corn : Int) (flour : List (String × Quantity))
    (time : Nat) : Session where
  node := "valley/mill"
  flags := .ofEntries (("open", .truth true) :: flags)
  resources := .ofEntries
    (("corn", .number (.int corn)) :: oddAmounts.map (fun e => (e.1, .number e.2)) ++ flour)
  vars := .ofEntries
    ([("name", .text "5"), ("level", .int 5), ("married", .truth true)] ++ vars)
  time := .number (.int time)

/-- Grinding once, which gives flour. -/
def oddTurn : Played where
  before := oddSession [] [] 3 [] 0
  asked := .text "grind"
  dice := .ofList [1]
  after := oddSession [("wind", .truth true), ("tired", .truth true)] [("weather", .text "rain")] 2
    [("flour", 2)] 1

theorem saved_session_reads_back_odd : Schema.checker.KeepsSessions ∧
    Session.ofDatum Schema.checker oddDatum = .ok oddTurn.before ∧
    mill.Run oddTurn.before [oddTurn] ∧
    Session.ofDatum Schema.checker oddTurn.after.toDatum = .ok oddTurn.after ∧
    mill.InterruptedRun Schema.checker oddTurn.before [oddTurn] := by
  have hkeeps := Schema.checker_keepsSessions
  have hs : Session.ofDatum Schema.checker oddDatum = .ok oddTurn.before := rfl
  have run : mill.Run oddTurn.before [oddTurn] := .cons rfl .nil
  obtain ⟨hread, hinterrupted⟩ := saved_session_reads_back hkeeps (.inl ⟨oddDatum, hs⟩) mill
  have ht : oddTurn.after ∈ snapshots oddTurn.before [oddTurn] :=
    List.mem_cons_of_mem _ List.mem_cons_self
  exact ⟨hkeeps, hs, run, hread _ run _ ht, (hinterrupted _).2 run⟩

end Story

end Gamebook
