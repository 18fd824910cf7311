import Gamebook.Schema
import Gamebook.Proofs.Accepted
import Gamebook.Proofs.Destination
import Gamebook.Proofs.Evaluation

/-!
# Which choices are taken

A choice is open to a session if it is one of the current node's, is asked for by its id, and all its
conditions are evaluated to true (`Story.Open`).  Where the conditions of the node cannot be evaluated,
a turn fails with what they fail with.  Otherwise it is refused exactly if no choice is open
(`Story.turn_refused_iff`), but what it takes if it is not refused is the first choice of the node with
the id.  The two are the same where no choices of a node share an id, as in every story that is accepted
(`Story.turn_takes_first`); where they do, a gated choice is taken in the place of the open one behind it
(`Story.twins_take_gated`).
-/

namespace Gamebook

theorem Condition.evaluateAll_eq_true_iff {s : State} {cs : List Condition} :
    evaluateAll s cs = .ok true ↔ ∀ c ∈ cs, c.evaluate s = .ok true := by
  induction cs with
  | nil => simp [evaluateAll]
  | cons c cs ih =>
    rw [evaluateAll, List.forall_mem_cons, ← ih]
    cases c.evaluate s with
    | error e => simp [bind, Except.bind]
    | ok holds => cases holds <;> simp

/-- What is asked for is found as the first choice with its id. -/
theorem Node.asked?_eq_some_iff {node : Node} {asked : Datum} {c : Choice} :
    node.asked? asked = some c ↔ asked = .text c.id ∧
      ∃ before after, node.choices = before ++ c :: after ∧ ∀ b ∈ before, b.id ≠ c.id := by
  cases asked with
  | text id =>
    simp only [asked?, choice?, List.find?_eq_some_iff_append, beq_iff_eq, Datum.text.injEq,
      Bool.not_eq_eq_eq_not, Bool.not_true, beq_eq_false_iff_ne]
    constructor
    · rintro ⟨rfl, before, after, hchoices, hbefore⟩
      exact ⟨rfl, before, after, hchoices, hbefore⟩
    · rintro ⟨rfl, before, after, hchoices, hbefore⟩
      exact ⟨rfl, before, after, hchoices, hbefore⟩
  | _ => simp [asked?]

namespace Story

/-- A choice of the current node that is asked for, all of whose conditions are evaluated to true. -/
def Open (story : Story) (s : Session) (asked : Datum) (c : Choice) : Prop :=
  ∃ node, story.node? s.node = some node ∧ c ∈ node.choices ∧ asked = .text c.id ∧
    ∀ condition ∈ c.conditions, condition.evaluate s.toState = .ok true

/-- Takes a choice, whether it is open or not: applies its effects and goes where it leads. -/
def take (story : Story) (s : Session) (c : Choice) (dice : Dice) : Turn :=
  match Effect.applyAll c.effects { s.toState with target := none } dice with
  | ⟨_, dice, some e⟩ => ⟨.error (.range e), dice⟩
  | ⟨draft, dice, none⟩ =>
    ⟨.ok { draft.toState with
        node := story.destination s.node c draft.target
        time := .number s.time.amount.next }, dice⟩

variable {story : Story} {s : Session} {asked : Datum} {dice : Dice} {c : Choice}
  {available choices : List Choice}

/-! ## Available choices -/

theorem mem_availableAmong_iff {s : State} (h : availableAmong s choices = .ok available) :
    c ∈ available ↔ c ∈ choices ∧ ∀ condition ∈ c.conditions, condition.evaluate s = .ok true := by
  induction choices generalizing available with
  | nil =>
    cases h
    simp
  | cons c' choices ih =>
    obtain ⟨holds, hholds, h⟩ := bind_eq_ok_iff.1 h
    rw [← Condition.evaluateAll_eq_true_iff, List.mem_cons]
    cases holds with
    | true =>
      obtain ⟨rest, hrest, h⟩ := bind_eq_ok_iff.1 h
      cases h
      rw [List.mem_cons, ih hrest, ← Condition.evaluateAll_eq_true_iff]
      grind
    | false =>
      rw [ih h, ← Condition.evaluateAll_eq_true_iff]
      grind

/-- Available are the choices whose conditions all hold, if these can be evaluated, which only a number
that is too long prevents. -/
theorem gives_availableAmong (s : State) (choices : List Choice) :
    Gives (availableAmong s choices) (· = choices.filter fun c => Condition.allHold s c.conditions)
      fun e => e = .tooLong ∧
        Condition.SomeTooLong s (choices.flatMap fun c => Condition.valuesOfAll c.conditions) := by
  induction choices with
  | nil => exact rfl
  | cons c choices ih =>
    rw [List.flatMap_cons]
    have hrest := ih.mono (fun _ => id) fun e he =>
      And.imp_right (Condition.SomeTooLong.mono · (List.subset_append_right
        (Condition.valuesOfAll c.conditions) _)) he
    refine ((Condition.gives_evaluateAll s c.conditions).mono
      (List.subset_append_left _ _)).bind ?_
    rintro _ rfl
    simp only [List.filter_cons]
    cases Condition.allHold s c.conditions with
    | true =>
      refine hrest.bind ?_
      rintro _ rfl
      exact rfl
    | false => exact hrest

/-- A choice is available if it is one of the current node's and its conditions are evaluated to true. -/
theorem mem_available_iff (h : story.available s = .ok available) : c ∈ available ↔
    ∃ node, story.node? s.node = some node ∧ c ∈ node.choices ∧
      ∀ condition ∈ c.conditions, condition.evaluate s.toState = .ok true := by
  unfold Story.available at h
  cases hnode : story.node? s.node with
  | none =>
    rw [hnode] at h
    cases h
    simp
  | some node =>
    rw [hnode] at h
    simp [mem_availableAmong_iff h]

/-- The choices that are open are the available ones, each asked for by its id. -/
theorem open_iff (h : story.available s = .ok available) :
    story.Open s asked c ↔ asked = .text c.id ∧ c ∈ available := by
  rw [mem_available_iff h, Open]
  constructor
  · rintro ⟨node, hnode, hc, hasked, hholds⟩
    exact ⟨hasked, node, hnode, hc, hholds⟩
  · rintro ⟨hasked, node, hnode, hc, hholds⟩
    exact ⟨node, hnode, hc, hasked, hholds⟩

/-! ## Choosing and taking -/

theorem turn_of_chosen (h : story.chosen s asked = .ok c) :
    story.turn s asked dice = story.take s c dice := by
  unfold turn
  rw [h]
  rfl

theorem turn_of_not_chosen {e : TurnError} (h : story.chosen s asked = .error e) :
    story.turn s asked dice = ⟨.error e, dice⟩ := by
  unfold turn
  rw [h]

theorem take_ne_refused (e : ChoiceError) : (story.take s c dice).result ≠ .error (.choice e) := by
  unfold take
  split <;> simp

/-- Nothing is chosen where the conditions of the node cannot be evaluated. -/
theorem chosen_of_available_error {e : RangeError} (h : story.available s = .error e) :
    story.chosen s asked = .error (.range e) := by
  unfold Story.available at h
  unfold chosen
  split at h
  · next hnode =>
    rw [hnode]
    simp only
    rw [h]
  · cases h

/-- Where they can be evaluated, a choice is found, or what was asked for is refused. -/
theorem gives_chosen (h : story.available s = .ok available) (hasked : asked.hasTooLong = false) :
    Gives (story.chosen s asked) (fun _ => True) fun e => ∃ error, e = .choice error := by
  unfold Story.available at h
  unfold chosen
  split at h
  · next hnode =>
    rw [hnode]
    simp only
    rw [h]
    simp only [chosenAmong, hasked]
    split
    · exact ⟨_, rfl⟩
    · split
      · trivial
      · exact ⟨_, rfl⟩
  · next hnode =>
    rw [hnode]
    exact ⟨_, rfl⟩

/-- A choice is chosen exactly if some choice is open. -/
theorem exists_chosen_iff (h : story.available s = .ok available) :
    (∃ c, story.chosen s asked = .ok c) ↔ ∃ c, story.Open s asked c := by
  have havailable {node : Node} (hnode : story.node? s.node = some node) :
      availableAt node s.toState = .ok available := by
    unfold Story.available at h
    rwa [hnode] at h
  constructor
  · rintro ⟨c, hc⟩
    obtain ⟨node, _, hnode, hat, hasked, d, hd, hid⟩ := chosen_eq_ok_iff.1 hc
    obtain ⟨hmem, hholds⟩ := (mem_availableAmong_iff hat).1 hd
    exact ⟨d, node, hnode, hmem, hid ▸ (Node.asked?_eq_some_iff.1 hasked).1, hholds⟩
  · rintro ⟨d, node, hnode, hd, rfl, hholds⟩
    obtain ⟨c, hc⟩ : ∃ c, node.choice? d.id = some c :=
      Option.isSome_iff_exists.1 (List.find?_isSome.2 ⟨d, hd, by simp⟩)
    have hid : c.id = d.id := by simpa using List.find?_some hc
    have hat := havailable hnode
    exact ⟨c, chosen_eq_ok_iff.2 ⟨node, available, hnode, hat, hc, d,
      (mem_availableAmong_iff hat).2 ⟨hd, hholds⟩, hid.symm⟩⟩

theorem turn_refused_iff (h : story.available s = .ok available) (hasked : asked.hasTooLong = false) :
    (∃ e, (story.turn s asked dice).result = .error (.choice e)) ↔ ∀ c, ¬ story.Open s asked c := by
  rw [← not_exists, ← exists_chosen_iff h]
  have hgives := gives_chosen h hasked
  cases hc : story.chosen s asked with
  | error e =>
    rw [hc] at hgives
    obtain ⟨error, rfl⟩ := hgives
    simp [turn_of_not_chosen hc]
  | ok c => simp [turn_of_chosen hc, take_ne_refused]

/-! ## Distinct ids -/

/-- The choices of a node of an accepted story have different ids. -/
theorem Accepted.nodup_ids {allowCycles : Bool} (h : story.Accepted allowCycles) {path : String}
    {node : Node} (hnode : story.node? path = some node) :
    (node.choices.map Choice.id).Nodup := by
  obtain ⟨listed, hissues⟩ := h.issues
  have sound := (issues_eq_nil_iff.1 hissues).1
  obtain ⟨i, entry⟩ := List.mem_iff_getElem?.1 (Table.get?_eq_some_iff.1 hnode)
  refine List.pairwise_iff_getElem.2 fun j k hj hk hjk hsame => ?_
  rw [List.length_map] at hj hk
  have choice : node.choices[k]? = some node.choices[k] := List.getElem?_eq_getElem hk
  refine sound _ (.choice entry choice (.sameId (List.mem_map.2 ⟨node.choices[j], ?_, ?_⟩)))
  · exact List.mem_take_iff_getElem.2 ⟨j, by omega, rfl⟩
  · simpa using hsame

/-- A turn fails with what the evaluation of the conditions of the node fails with.  If it does not fail,
the turn is refused exactly if no choice of the node is open.  Otherwise it takes the first choice of the
node with the id that is asked for.  That choice is open, or else an open choice with the same id is
behind it; in an accepted story it is open. -/
theorem turn_takes_first (story : Story) (s : Session) (asked : Datum) (dice : Dice) :
    (∀ e, story.available s = .error e → story.turn s asked dice = ⟨.error (.range e), dice⟩) ∧
    ∀ available, story.available s = .ok available → asked.hasTooLong = false →
      ((∃ e, (story.turn s asked dice).result = .error (.choice e)) ↔
        ∀ c, ¬ story.Open s asked c) ∧
      ((∃ e, (story.turn s asked dice).result = .error (.choice e)) ∨
        ∃ node before c after, story.node? s.node = some node ∧
          node.choices = before ++ c :: after ∧ asked = .text c.id ∧ (∀ b ∈ before, b.id ≠ c.id) ∧
          story.turn s asked dice = story.take s c dice ∧
          (story.Open s asked c ∨ ∃ d ∈ after, story.Open s asked d) ∧
          ∀ allowCycles, story.Accepted allowCycles → story.Open s asked c) := by
  refine ⟨fun e he => turn_of_not_chosen (chosen_of_available_error he),
    fun available havailable hasked => ⟨turn_refused_iff havailable hasked, ?_⟩⟩
  have hgives := gives_chosen havailable hasked
  cases hc : story.chosen s asked with
  | error e =>
    rw [hc] at hgives
    obtain ⟨error, rfl⟩ := hgives
    exact .inl ⟨error, by rw [turn_of_not_chosen hc]⟩
  | ok c =>
    obtain ⟨node, _, hnode, hat, hfirst, d, hd, hid⟩ := chosen_eq_ok_iff.1 hc
    obtain ⟨hmem, hholds⟩ := (mem_availableAmong_iff hat).1 hd
    obtain ⟨rfl, before, after, hchoices, hbefore⟩ := Node.asked?_eq_some_iff.1 hfirst
    have hopen : story.Open s (.text c.id) d :=
      ⟨node, hnode, hmem, congrArg Datum.text hid.symm, hholds⟩
    have hplace : d = c ∨ d ∈ after := by
      rw [hchoices, List.mem_append, List.mem_cons] at hmem
      exact hmem.resolve_left fun h => hbefore d h hid
    refine .inr ⟨node, before, c, after, hnode, hchoices, rfl, hbefore, turn_of_chosen hc, ?_, ?_⟩
    · rcases hplace with rfl | hafter
      · exact .inl hopen
      · exact .inr ⟨d, hafter, hopen⟩
    · intro allowCycles haccepted
      have hsame : d = c :=
        List.inj_on_of_nodup_map (haccepted.nodup_ids hnode) hmem
          (hchoices ▸ List.mem_append_right _ List.mem_cons_self) hid
      exact hsame ▸ hopen

/-- A story with two choices of one id in the hall: one needs a key and leads to the vault, and one
that is always open leads to the yard. -/
def twins : Story where
  kind := ""
  start := "hall"
  flags := ∅
  resources := ∅
  nodes := .ofEntries [
    ("hall", ⟨"hall", "", [
      ⟨"go", "", "vault", [.flagIs "key" true], [], none⟩,
      ⟨"go", "", "yard", [], [], none⟩]⟩),
    ("vault", ⟨"vault", "", []⟩), ("yard", ⟨"yard", "", []⟩)]

/-- A document of the story `twins`. -/
def twinsDocument : Datum :=
  .object [("startNode", .text "hall"), ("nodes", .object [
    ("hall", .object [("choices", .list [
      .object [("id", .text "go"), ("target", .text "vault"), ("conditions", .list [
        .object [("type", .text "flag"), ("key", .text "key")]])],
      .object [("id", .text "go"), ("target", .text "yard")]])]),
    ("vault", .object []), ("yard", .object [])])]

/-- Without the key, the only choice that is open leads to the yard; still the turn leads to the
vault. -/
theorem twins_take_gated : ofDatum Schema.checker twinsDocument = .ok twins ∧
    (∃ c, twins.Open (twins.begin {}) (.text "go") c) ∧
    (∀ c, twins.Open (twins.begin {}) (.text "go") c →
      twins.turn (twins.begin {}) (.text "go") (.ofList []) ≠
        twins.take (twins.begin {}) c (.ofList [])) ∧
    ∃ t, (twins.turn (twins.begin {}) (.text "go") (.ofList [])).result = .ok t ∧
      t.node = "vault" := by
  have hall : twins.node? (twins.begin {}).node = some ⟨"hall", "", [
      ⟨"go", "", "vault", [.flagIs "key" true], [], none⟩,
      ⟨"go", "", "yard", [], [], none⟩]⟩ := rfl
  refine ⟨rfl, ⟨_, _, hall, List.mem_cons_of_mem _ List.mem_cons_self, rfl, by simp⟩, ?_, _, rfl, rfl⟩
  rintro c ⟨node, hnode, hmem, -, hholds⟩ hsame
  obtain rfl := Option.some.inj (hall.symm.trans hnode)
  rcases List.mem_cons.1 hmem with rfl | hmem
  · -- there is no key
    exact absurd (hholds _ List.mem_cons_self) (by decide)
  · obtain rfl := List.mem_singleton.1 hmem
    have hnodes := congrArg (fun turn => turn.result.toOption.map Session.node) hsame
    exact absurd hnodes (by decide)

end Story

end Gamebook
