import Gamebook.Proofs.Gate
import Gamebook.Proofs.Reread
import Gamebook.Proofs.Run
import Gamebook.Proofs.Writes

/-!
# What is true of every session of a run

A turn that succeeds ends at a node, moves the clock by one, and otherwise changes the state only by
writes of the choice that it takes (`turn_writes`).  So the clock counts the turns of a run, and the
keys of a session are the ones that the story starts with and keys that effects of the story name
(`run_progress`).
-/

namespace Gamebook.Story

/-- An effect occurs in a choice of the story, at whatever position. -/
def HasEffect (story : Story) (e : Effect) : Prop :=
  ∃ path node c, story.node? path = some node ∧ c ∈ node.choices ∧
    ∃ position, Effect.part? position (.oneOf c.effects) = some e

/-- The keys with which a table of a session starts. -/
def keys (story : Story) : Store → List String
  | .flags => story.flags.keys
  | .resources => story.resources.keys
  | .vars => []

/-- What holds of a session after a number of turns. -/
structure Progress (story : Story) (n : Nat) (s : Session) : Prop where
  node_mem : s.node ∈ story.nodes.keys
  time_eq : s.time = .number (.int n)
  keys_kept (store : Store) : story.keys store ⊆ s.keys store
  key_known (store : Store) : ∀ key ∈ s.keys store, key ∈ story.keys store ∨
    ∃ e, story.HasEffect e ∧ e.key? store = some key

variable {story : Story} {allowCycles : Bool} {s t : Session} {asked : Datum} {dice : Dice}

/-! ## One turn -/

/-- A turn that succeeds leaves the state that effects of a choice have written, one turn later. -/
theorem turn_writes (h : (story.turn s asked dice).result = .ok t) :
    ∃ node c, story.node? s.node = some node ∧ c ∈ node.choices ∧
      ∃ written : State, Relation.ReflTransGen (Effect.WritesOfAll c.effects) s.toState written ∧
        t.toState = { written with time := .number s.time.amount.next } := by
  obtain ⟨c, hc, -, -⟩ := turn_ok h
  obtain ⟨node, hnode, hmem⟩ := chosen_mem hc
  refine ⟨node, c, hnode, hmem, ?_⟩
  rw [turn_of_chosen hc, take] at h
  have hwrites := Effect.writes_applyAll c.effects { s.toState with target := none } dice
  split at h
  · cases h
  · next draft dice' ha =>
    cases h
    rw [ha] at hwrites
    exact ⟨draft.toState, hwrites, rfl⟩

theorem turn_node_mem (h : (story.turn s asked dice).result = .ok t) :
    t.node ∈ story.nodes.keys := by
  obtain ⟨c, hc, -, hnode⟩ := turn_ok h
  split at hnode
  · obtain ⟨node, hs, -⟩ := chosen_mem hc
    exact hnode ▸ Table.mem_keys_iff.2 ⟨node, hs⟩
  · next hmoves => exact hnode ▸ not_not.1 (not_or.1 hmoves).2

theorem turn_keys (h : (story.turn s asked dice).result = .ok t) (store : Store) :
    s.keys store ⊆ t.keys store ∧ ∀ key ∈ t.keys store, key ∈ s.keys store ∨
      ∃ e, story.HasEffect e ∧ e.key? store = some key := by
  obtain ⟨node, c, hnode, hc, written, hwrites, ht⟩ := turn_writes h
  have hkeys : t.keys store = written.keys store := by
    rw [ht]
    cases store <;> rfl
  obtain ⟨hkept, hknown⟩ := Effect.keys_of_writes hwrites store
  rw [hkeys]
  refine ⟨hkept, fun key hkey => (hknown key hkey).imp_right ?_⟩
  rintro ⟨position, part, hpart, hname⟩
  exact ⟨part, ⟨s.node, node, c, hnode, hc, position, hpart⟩, hname⟩

theorem turn_time (h : (story.turn s asked dice).result = .ok t) :
    t.time = .number s.time.amount.next := by
  obtain ⟨-, -, -, -, written, -, ht⟩ := turn_writes h
  exact congrArg State.time ht

theorem Progress.turn {n : Nat} (hs : story.Progress n s)
    (h : (story.turn s asked dice).result = .ok t) : story.Progress (n + 1) t where
  node_mem := turn_node_mem h
  time_eq := by
    rw [turn_time h, hs.time_eq]
    rfl
  keys_kept store := List.Subset.trans (hs.keys_kept store) (turn_keys h store).1
  key_known store key hkey :=
    ((turn_keys h store).2 key hkey).elim (hs.key_known store key) .inr

/-! ## Runs -/

/-- What holds of the session that a run begins with, and is kept by every turn that succeeds, holds of
every snapshot of the run. -/
theorem Run.snapshot_induction {turns : List Played} (run : story.Run s turns) :
    ∀ {P : Nat → Session → Prop}, P 0 s →
      (∀ n s t asked dice, P n s → (story.turn s asked dice).result = .ok t → P (n + 1) t) →
      ∀ n t, (snapshots s turns)[n]? = some t → P n t := by
  induction run with
  | nil =>
    intro P start _ n t ht
    cases n with
    | zero =>
      cases ht
      exact start
    | succ n => cases ht
  | @cons s u asked dice rest turn run ih =>
    intro P start step n t ht
    cases n with
    | zero =>
      cases ht
      exact start
    | succ n =>
      exact ih (P := fun n => P (n + 1)) (step 0 s u asked dice start turn)
        (fun n => step (n + 1)) n t ht

theorem keys_begin (story : Story) (store : Store) :
    (story.begin {}).keys store = story.keys store := by
  cases store with
  | flags => exact Table.keys_mapWithKey (fun _ => Datum.truth) story.flags
  | resources => exact Table.keys_mapWithKey (fun _ => Quantity.number) story.resources
  | vars => rfl

theorem Resolved.progress_begin (h : story.Resolved) : story.Progress 0 (story.begin {}) where
  node_mem := h.start
  time_eq := rfl
  keys_kept store := (keys_begin story store).symm ▸ List.Subset.refl _
  key_known store _ hkey := .inl (keys_begin story store ▸ hkey)

/-- After a number of turns of a run from the beginning of an accepted story, the session is at a node,
its time is that number, the keys of the initial flags and resources are still there, and every other
key is named by an effect of the story that gives that kind of value. -/
theorem run_progress (h : story.Accepted allowCycles) {turns : List Played}
    (run : story.Run (story.begin {}) turns) {n : Nat}
    (hs : (snapshots (story.begin {}) turns)[n]? = some s) :
    s.node ∈ story.nodes.keys ∧ s.time = .number (.int n) ∧
    story.flags.keys ⊆ s.flags.keys ∧ story.resources.keys ⊆ s.resources.keys ∧
    (∀ key ∈ s.flags.keys, key ∈ story.flags.keys ∨
      ∃ value, story.HasEffect (.setFlag key value)) ∧
    (∀ key ∈ s.resources.keys, key ∈ story.resources.keys ∨
      ∃ x, story.HasEffect (.addResource key x) ∨ story.HasEffect (.multiplyResource key x) ∨
        story.HasEffect (.setResource key x)) ∧
    ∀ key ∈ s.vars.keys, ∃ value, story.HasEffect (.setVariable key value) := by
  have hp : story.Progress n s := run.snapshot_induction h.resolved.progress_begin
    (fun n s t asked dice hs turn => hs.turn turn) n s hs
  refine ⟨hp.node_mem, hp.time_eq, hp.keys_kept .flags, hp.keys_kept .resources,
    fun key hkey => ?_, fun key hkey => ?_, fun key hkey => ?_⟩
  · refine (hp.key_known .flags key hkey).imp_right fun ⟨e, he, hname⟩ => ?_
    obtain ⟨value, rfl⟩ := Effect.key?_flags_eq_some_iff.1 hname
    exact ⟨value, he⟩
  · refine (hp.key_known .resources key hkey).imp_right fun ⟨e, he, hname⟩ => ?_
    obtain ⟨x, rfl | rfl | rfl⟩ := Effect.key?_resources_eq_some_iff.1 hname
    · exact ⟨x, .inl he⟩
    · exact ⟨x, .inr (.inl he)⟩
    · exact ⟨x, .inr (.inr he)⟩
  · obtain ⟨e, he, hname⟩ := (hp.key_known .vars key hkey).resolve_left List.not_mem_nil
    obtain ⟨value, rfl⟩ := Effect.key?_vars_eq_some_iff.1 hname
    exact ⟨value, he⟩

/-! ### A story of work -/

/-- What grinding does: it always uses corn up and names the weather, and gives flour if the mill is open
and the dice bring wind. -/
def grinding : List Effect :=
  [.addResource "corn" (.int (-1)),
    .provided (.flagIs "open" true) (.oneOf [.verbatim "rest", .setFlag "wind" true]),
    .provided (.flagIs "wind" true) (.addResource "flour" (.int 2)),
    .oneOf [.setFlag "tired" true], .setVariable "weather" (.text "rain")]

/-- A story with a mill in a group, which can be worked in as often as one likes. -/
def mill : Story where
  kind := ""
  start := "valley/mill"
  flags := .ofEntries [("open", true)]
  resources := .ofEntries [("corn", .int 3)]
  nodes := .ofEntries
    [("valley/mill", ⟨"valley/mill", "", [⟨"grind", "", "./mill", [], grinding, none⟩]⟩)]

/-- Effects that are well-formed and no text are read as they are. -/
theorem readEach_toData {es : List Effect} (h : ∀ e ∈ es, e.WellFormed ∧ ∀ s, e ≠ .verbatim s)
    (place : String) :
    Document.readEach Document.readEffect place 0 (Effect.toData es) = .ok (es.map some) := by
  rw [Effect.toData_eq_map]
  exact Document.readEach_map (fun e he place =>
    Document.readEffect_of_wellFormed (h e he).1 (h e he).2 place) place 0

theorem readEach_grinding (place : String) :
    Document.readEach Document.readEffect place 0 (Effect.toData grinding) =
      .ok (grinding.map some) := by
  have hone : (Number.int (-1)).isFinite = .ok true := by decide +kernel
  have htwo : (Number.int 2).isFinite = .ok true := by decide +kernel
  have hgrinding : ∀ e ∈ grinding, e.WellFormed ∧ ∀ s, e ≠ .verbatim s := by
    have hwind : ∀ e ∈ [.verbatim "rest", .setFlag "wind" true], Effect.WellFormed e :=
      List.forall_mem_cons.2 ⟨.verbatim, List.forall_mem_singleton.2 (.setFlag (by decide))⟩
    have hflag : ∀ e ∈ [.setFlag "tired" true], Effect.WellFormed e :=
      List.forall_mem_singleton.2 (.setFlag (by decide))
    simp only [grinding, List.forall_mem_cons]
    exact ⟨⟨.addResource (by decide) hone, nofun⟩,
      ⟨.provided (.flagIs (by decide)) (.oneOf hwind), nofun⟩,
      ⟨.provided (.flagIs (by decide)) (.addResource (by decide) htwo), nofun⟩,
      ⟨.oneOf hflag, nofun⟩, ⟨.setVariable (by decide), nofun⟩, List.forall_mem_nil _⟩
  exact readEach_toData hgrinding place

theorem mill_accepted : mill.Accepted true := by
  have hnodes : Document.readNodes mill.form.nodes.entries = .ok mill.nodes.entries := by
    show Document.readNodes [("valley/mill", ⟨some "valley/mill", "", [⟨"grind", "", "./mill", [],
      Effect.toData grinding, none⟩]⟩)] = _
    simp only [Document.readNodes, Document.readNode, Document.readEach, Document.readChoice,
      readEach_grinding]
    rfl
  have hread : ofDatum Schema.checker mill.toDatum = .ok mill := by
    rw [ofDatum_toDatum Schema.checker_keepsStories, Document.StoryForm.read, hnodes, ok_bind,
      Table.ofEntries_entries]
    rfl
  have hload : load Schema.checker mill.toDatum true [] = .ok mill := by
    unfold load
    rw [hread]
    rfl
  exact .document hload

/-- The session in the mill after some turns of work, with what they have added. -/
def millSession (flags : List (String × Datum)) (resources : List (String × Quantity)) (time : Nat) :
    Session where
  node := "valley/mill"
  flags := .ofEntries ([("open", .truth true), ("tired", .truth true)] ++ flags)
  resources := .ofEntries resources
  vars := .ofEntries [("weather", .text "rain")]
  time := .number (.int time)

/-- The mill after a turn without wind. -/
def calm : Session :=
  millSession [] [("corn", 2)] 1

/-- The mill after another turn, in which there was wind. -/
def windy : Session :=
  millSession [("wind", .truth true)] [("corn", 1), ("flour", 2)] 2

/-- Grinding twice, which gives flour the second time. -/
def millTurns : List Played :=
  [⟨mill.begin {}, .text "grind", .ofList [0], calm⟩, ⟨calm, .text "grind", .ofList [1], windy⟩]

theorem mill_run : mill.Run (mill.begin {}) millTurns :=
  .cons rfl (.cons rfl .nil)

theorem run_progress_mill : mill.Accepted true ∧ mill.Run (mill.begin {}) millTurns ∧
    (snapshots (mill.begin {}) millTurns)[2]? = some windy ∧ mill.resources.keys = ["corn"] ∧
    ∀ key ∈ ["corn", "flour"], key ∈ mill.resources.keys ∨
      ∃ x, mill.HasEffect (.addResource key x) ∨ mill.HasEffect (.multiplyResource key x) ∨
        mill.HasEffect (.setResource key x) := by
  have hs : (snapshots (mill.begin {}) millTurns)[2]? = some windy := rfl
  obtain ⟨-, -, -, -, -, hknown, -⟩ := run_progress mill_accepted mill_run hs
  exact ⟨mill_accepted, mill_run, hs, rfl, hknown⟩

end Gamebook.Story
