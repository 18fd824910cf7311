import Gamebook.Proofs.Answers
import Gamebook.Proofs.Foreseen

/-!
# Conversations

Playing a story interactively is described line by line (`Shell.Conversation`): a line takes the choice
with that number among those that were just shown, or the one with that id, or is answered with an error
that leaves everything as it was.  If the effects of an accepted story never fail (`Story.Unfailing`),
then playing is such a conversation whatever the lines are, and so it ends well unless it comes to a line
that cannot be read as a number (`Shell.play_answers_every_line`).  Which choices are offered can always
be settled, since the story comes from text (`Story.short_of_loadText`).

Such lines exist, as a digit need not be decimal (`Shell.superscript_not_answered`).  Effects never fail
in a story of which all numbers can be written and which does not mix integers and floating point numbers
under one key (`Story.Unmixed.unfailing`).
-/

namespace Gamebook

/-! ## Effects that never fail -/

namespace Story

/-- The sessions that turns lead to from the beginning, whatever is asked for and whatever the dice. -/
def Reachable (story : Story) : Session → Prop :=
  Relation.ReflTransGen (fun s t => ∃ asked dice, (story.turn s asked dice).result = .ok t)
    (story.begin {})

/-- Wherever turns lead to, the effects of the choices that are available do not fail. -/
def Unfailing (story : Story) : Prop :=
  ∀ s, story.Reachable s → ∀ available, story.available s = .ok available → ∀ c ∈ available,
    ∀ dice, (Effect.applyAll c.effects { s.toState with target := none } dice).error = none

variable {story : Story} {allowCycles : Bool} {s : Session} {c : Choice}

/-- A choice can be taken exactly if its effects do not fail. -/
theorem exists_take_iff {dice : Dice} : (∃ t, (story.take s c dice).result = .ok t) ↔
    (Effect.applyAll c.effects { s.toState with target := none } dice).error = none := by
  unfold take
  split
  · next ha => simp [ha]
  · next ha => simp [ha]

theorem Reachable.sorted (h : story.Reachable s) (hunmixed : story.Unmixed) :
    story.Sorted s.toState := by
  induction h with
  | refl => exact sorted_begin hunmixed
  | tail _ turn ih =>
    obtain ⟨asked, dice, hturn⟩ := turn
    exact ih.turn hunmixed hturn

theorem Reachable.short (h : story.Reachable s) (hshort : story.Short) : s.Short := by
  induction h with
  | refl => exact Short.begin story
  | tail _ turn ih =>
    obtain ⟨asked, dice, hturn⟩ := turn
    exact hshort.turn ih hturn

/-- In a story that does not mix the kinds of the numbers for a resource, and whose numbers can be
written, no effects fail. -/
theorem Unmixed.unfailing (h : story.Unmixed) (hshort : story.Short) : story.Unfailing := by
  intro s hs available havailable c hc dice
  obtain ⟨node, hnode, hmem, -⟩ := (mem_available_iff havailable).1 hc
  cases ht : (story.take s c dice).result with
  | ok t => exact exists_take_iff.1 ⟨t, ht⟩
  | error error =>
    obtain ⟨e, -, hstuck⟩ := stuck_of_take ht
    have hlarge := hshort.tooLarge_of_stuck (hs.short hshort) hnode hmem hstuck
    have hlong := (hs.sorted h).tooLong_of_stuck h hnode hmem hstuck
    exact RangeError.noConfusion (hlarge.symm.trans hlong)

end Story

namespace Shell

variable {p q : Playthrough} {c : Choice} {choices : List Choice} {line : String}
  {lines : List String} {report : Report}

/-! ## Choices that are taken -/

/-- What is owned after an outcome, if there is one. -/
def inventoryAfter (p : Playthrough) : Option Outcome → Inventory
  | some o => (p.inventory.applyOutcome o).2
  | none => p.inventory

/-- Taking a choice, as it is offered, makes the one play-through the other. -/
structure Taken (p : Playthrough) (c : Choice) (q : Playthrough) : Prop where
  offered : ∃ choices, p.choices = .ok choices ∧ c ∈ choices
  chosen : p.choose (.text c.id) = (none, q)
  turn : (p.story.turn p.session (.text c.id) p.dice) = p.story.take p.session c p.dice
  session : (p.story.take p.session c p.dice).result = .ok q.session
  outcome : q.lastOutcome = c.outcome
  inventory : q.inventory = inventoryAfter p c.outcome
  history : q.history = p.moment :: p.history

theorem Taken.story (h : Taken p c q) : q.story = p.story :=
  (Playthrough.kept_of_taken h.chosen).1.story

theorem Taken.reachable (h : Taken p c q) (hp : p.story.Reachable p.session) :
    q.story.Reachable q.session := by
  have hturn : (p.story.turn p.session (.text c.id) p.dice).result = .ok q.session := by
    rw [h.turn, h.session]
  rw [h.story]
  exact hp.tail ⟨_, _, hturn⟩

variable {allowCycles : Bool}

/-- In an accepted story whose effects never fail, a choice that is offered can be taken. -/
theorem exists_taken (haccepted : p.story.Accepted allowCycles) (hsound : p.story.Unfailing)
    (hreach : p.story.Reachable p.session) (hchoices : p.choices = .ok choices) (hc : c ∈ choices) :
    ∃ q, Taken p c q := by
  obtain ⟨available, havailable, rfl⟩ := Playthrough.exists_available_of_choices hchoices
  obtain ⟨d, hd, rfl⟩ := List.mem_map.1 hc
  have hchosen := haccepted.chosen_of_available havailable hd
  have hturn : p.story.turn p.session (.text d.id) p.dice = p.story.take p.session d p.dice :=
    Story.turn_of_chosen hchosen
  obtain ⟨t, ht⟩ := Story.exists_take_iff.2 (hsound _ hreach available havailable d hd p.dice)
  have hchoose := Playthrough.choose_of_ok (hturn.trans (congrArg (Turn.mk · _) ht))
  rw [Playthrough.outcomeFor_of_chosen hchosen] at hchoose
  exact ⟨_, ⟨_, hchoices, hc⟩, hchoose, hturn, ht, rfl, rfl, rfl⟩

/-- What is asked for by the id of no choice that is offered is refused, and nothing changes. -/
theorem choose_refused (hchoices : p.choices = .ok choices) {id : String}
    (hid : ∀ c ∈ choices, c.id ≠ id) :
    ∃ e, p.story.chosen p.session (.text id) = .error (.choice e) ∧
      p.choose (.text id) = (some (.choice e), p) := by
  obtain ⟨available, havailable, rfl⟩ := Playthrough.exists_available_of_choices hchoices
  have hgives := Story.gives_chosen havailable (show (Datum.text id).hasTooLong = false from rfl)
  cases hchosen : p.story.chosen p.session (.text id) with
  | ok d =>
    obtain ⟨c, hopen⟩ := (Story.exists_chosen_iff havailable).1 ⟨d, hchosen⟩
    obtain ⟨hasked, hc⟩ := (Story.open_iff havailable).1 hopen
    exact absurd (Datum.text.inj hasked).symm (hid (p.withOutcome c) (List.mem_map_of_mem hc))
  | error error =>
    rw [hchosen] at hgives
    obtain ⟨e, rfl⟩ := hgives
    exact ⟨e, rfl, Playthrough.choose_of_error (Story.turn_of_not_chosen hchosen)⟩

/-! ## Line by line -/

/-- There are choices to take. -/
structure Offers (p : Playthrough) (offered : List Choice) : Prop where
  choices_eq : p.choices = .ok offered
  nonempty : offered ≠ []

/-- What is reported if a play-through is continued with lines. -/
inductive Conversation : Playthrough → List String → Report → Prop where
  /-- There is no choice, so nothing is asked. -/
  | finished {p : Playthrough} {lines : List String} (hend : p.choices = .ok []) :
    Conversation p lines (.exit (screen p [] ++ ending) 0)
  /-- There are no lines any more. -/
  | silent {p : Playthrough} {choices : List Choice} (hoffers : Offers p choices) :
    Conversation p [] (.exit (screen p choices ++ prompt) 0)
  | leaves {p : Playthrough} {choices : List Choice} {line : String} {lines : List String}
    (hoffers : Offers p choices) (hleaves : Leaves line) :
    Conversation p (line :: lines) (.exit (screen p choices ++ prompt) 0)
  /-- The number of a choice takes that choice. -/
  | number {p q : Playthrough} {choices : List Choice} {line : String} {lines : List String}
    {report : Report} {c : Choice} (hoffers : Offers p choices) (hpicks : Picks choices line c)
    (htaken : Taken p c q) (rest : Conversation q lines report) :
    Conversation p (line :: lines) (report.after (screen p choices ++ prompt))
  /-- Anything else takes the choice with that id. -/
  | id {p q : Playthrough} {choices : List Choice} {line : String} {lines : List String}
    {report : Report} {c : Choice} (hoffers : Offers p choices) (hleaves : ¬ Leaves line)
    (hreadable : lineFailure? line = none) (hpicks : ∀ d, ¬ Picks choices line d)
    (hid : c.id = String.ofList (word line)) (htaken : Taken p c q)
    (rest : Conversation q lines report) :
    Conversation p (line :: lines) (report.after (screen p choices ++ prompt))
  /-- If no choice has that id, an error is shown and nothing changes. -/
  | refused {p : Playthrough} {choices : List Choice} {line : String} {lines : List String}
    {report : Report} {e : ChoiceError} (hoffers : Offers p choices) (hleaves : ¬ Leaves line)
    (hreadable : lineFailure? line = none) (hpicks : ∀ d, ¬ Picks choices line d)
    (hid : ∀ d ∈ choices, d.id ≠ String.ofList (word line))
    (hrefused : p.story.chosen p.session (.text (String.ofList (word line))) = .error (.choice e))
    (rest : Conversation p lines report) :
    Conversation p (line :: lines)
      (report.after (screen p choices ++ prompt ++ s!"Error: {e.message}\n"))
  /-- A line that cannot be read breaks off. -/
  | unreadable {p : Playthrough} {choices : List Choice} {line : String} {lines : List String}
    {failure : Failure} (hoffers : Offers p choices) (hfailure : lineFailure? line = some failure) :
    Conversation p (line :: lines) (.failed (screen p choices ++ prompt) failure)

/-- A conversation ends well, or breaks off at a line that cannot be read. -/
theorem Conversation.ending_cases (h : Conversation p lines report) :
    report.ending = .exit 0 ∨
      ∃ line ∈ lines, ∃ failure, lineFailure? line = some failure ∧
        report.ending = .failed failure := by
  induction h with
  | finished | silent | leaves => exact .inl rfl
  | number _ _ _ _ ih | id _ _ _ _ _ _ _ ih | refused _ _ _ _ _ _ _ ih =>
    refine ih.imp_right ?_
    rintro ⟨line, hline, hfailure⟩
    exact ⟨line, List.mem_cons_of_mem _ hline, hfailure⟩
  | unreadable _ hfailure => exact .inr ⟨_, List.mem_cons_self, _, hfailure, rfl⟩

/-! ## Playing -/

theorem reply_of_taken (hanswer : understand choices line = .take c.id) (h : Taken p c q) :
    reply p choices line = .next "" q := by
  simp only [reply, hanswer, h.chosen]

theorem reply_of_refused {id : String} {e : ChoiceError}
    (hanswer : understand choices line = .take id)
    (h : p.choose (.text id) = (some (.choice e), p)) :
    reply p choices line = .next s!"Error: {e.message}\n" p := by
  simp only [reply, hanswer, h]

theorem Picks.mem (h : Picks choices line c) : c ∈ choices := by
  obtain ⟨k, -, hc⟩ := h
  exact List.mem_of_getElem? hc

variable {story : Story}

/-- Whether there are choices to take can be settled wherever turns lead to. -/
theorem finished_or_offers (hshort : p.story.Short) (hreach : p.story.Reachable p.session) :
    p.choices = .ok [] ∨ ∃ choices, Offers p choices := by
  obtain ⟨available, havailable⟩ := hshort.exists_available (hreach.short hshort)
  have hchoices : p.choices = .ok (available.map p.withOutcome) := by
    rw [Playthrough.choices, havailable]
    rfl
  by_cases hnil : available.map p.withOutcome = []
  · exact .inl (hnil ▸ hchoices)
  · exact .inr ⟨_, hchoices, hnil⟩

theorem converse_of_finished (h : p.choices = .ok []) (lines : List String) :
    converse p lines = .exit (screen p [] ++ ending) 0 := by
  unfold converse
  rw [h]
  rfl

theorem converse_of_offers (h : Offers p choices) (lines : List String) :
    converse p lines = match lines with
      | [] => .exit (screen p choices ++ prompt) 0
      | line :: lines =>
        match reply p choices line with
        | .left => .exit (screen p choices ++ prompt) 0
        | .next text q => (converse q lines).after (screen p choices ++ prompt ++ text)
        | .range e => .failed (screen p choices ++ prompt) (.range e)
        | .noNumber text => .failed (screen p choices ++ prompt) (.noNumber text) := by
  conv_lhs => unfold converse
  rw [h.choices_eq]
  exact (if_neg (mt List.isEmpty_iff.1 h.nonempty)).trans (by cases lines <;> rfl)

/-- Playing interactively is a conversation, whatever the lines are. -/
theorem conversation_converse (haccepted : story.Accepted allowCycles) (hshort : story.Short)
    (hsound : story.Unfailing) (lines : List String) :
    ∀ p : Playthrough, p.story = story → story.Reachable p.session →
      Conversation p lines (converse p lines) := by
  induction lines with
  | nil =>
    intro p hstory hreach
    subst hstory
    rcases finished_or_offers hshort hreach with hend | ⟨choices, hoffers⟩
    · rw [converse_of_finished hend]
      exact .finished hend
    · rw [converse_of_offers hoffers]
      exact .silent hoffers
  | cons line lines ih =>
    intro p hstory hreach
    subst hstory
    rcases finished_or_offers hshort hreach with hend | ⟨choices, hoffers⟩
    · rw [converse_of_finished hend]
      exact .finished hend
    have take : ∀ c ∈ choices, ∃ q, Taken p c q ∧ Conversation q lines (converse q lines) := by
      intro c hc
      obtain ⟨q, htaken⟩ := exists_taken haccepted hsound hreach hoffers.choices_eq hc
      exact ⟨q, htaken, ih q htaken.story (htaken.story ▸ htaken.reachable hreach)⟩
    have hunderstood := understood choices line
    generalize hanswer : understand choices line = answer at hunderstood
    rw [converse_of_offers hoffers]
    cases hunderstood with
    | leave hleaves =>
      simp only [reply, hanswer]
      exact .leaves hoffers hleaves
    | range hfailure | noNumber hfailure =>
      simp only [reply, hanswer]
      exact .unreadable hoffers hfailure
    | number hpicks =>
      obtain ⟨q, htaken, rest⟩ := take _ hpicks.mem
      simp only [reply_of_taken hanswer htaken, String.append_empty]
      exact .number hoffers hpicks htaken rest
    | word hleaves hreadable hpicks =>
      by_cases hid : ∃ c ∈ choices, c.id = String.ofList (word line)
      · obtain ⟨c, hc, hid⟩ := hid
        obtain ⟨q, htaken, rest⟩ := take c hc
        simp only [reply_of_taken (hid ▸ hanswer) htaken, String.append_empty]
        exact .id hoffers hleaves hreadable hpicks hid htaken rest
      · have hnone : ∀ c ∈ choices, c.id ≠ String.ofList (word line) :=
          fun c hc heq => hid ⟨c, hc, heq⟩
        obtain ⟨e, hrefused, hchoose⟩ := choose_refused hoffers.choices_eq hnone
        simp only [reply_of_refused hanswer hchoose]
        exact .refused hoffers hleaves hreadable hpicks hnone hrefused (ih p rfl hreach)

/-! ## The numbers on the screen -/

/-- The line of the screen with a number and a choice. -/
def choiceLine (number : Nat) (c : Choice) : String :=
  let text := if c.text = "" then c.id else c.text
  s!"  {number}. {text} ({c.id})\n"

theorem choiceLines_cons (n : Nat) (c : Choice) (cs : List Choice) :
    choiceLines n (c :: cs) = choiceLine n c ++ choiceLines (n + 1) cs := rfl

theorem exists_choiceLines_eq {cs : List Choice} {k : Nat} (h : cs[k]? = some c) (n : Nat) :
    ∃ before after, choiceLines n cs = before ++ choiceLine (n + k) c ++ after := by
  induction cs generalizing n k with
  | nil => cases h
  | cons d cs ih =>
    rw [choiceLines_cons]
    cases k with
    | zero =>
      obtain rfl := Option.some.inj h
      refine ⟨"", choiceLines (n + 1) cs, ?_⟩
      rw [String.empty_append, Nat.add_zero n]
    | succ k =>
      obtain ⟨before, after, hlines⟩ := ih h (n + 1)
      refine ⟨choiceLine n d ++ before, after, ?_⟩
      rw [hlines, Nat.add_right_comm, Nat.add_assoc]
      simp only [String.append_assoc]

/-- The choices are shown in order, the first one with the number one. -/
theorem screen_shows_choice {k : Nat} (h : choices[k]? = some c) :
    ∃ before after, screen p choices = before ++ choiceLine (k + 1) c ++ after := by
  obtain ⟨before, after, hlines⟩ := exists_choiceLines_eq h 1
  refine ⟨heading p ++ before, after, ?_⟩
  rw [screen, hlines, Nat.add_comm 1 k]
  simp only [String.append_assoc]

/-! ## The command -/

theorem loadText_of_loadFile {w : World} {file : String}
    (h : loadFile w file allowCycles = .story story) :
    ∃ cs, Story.loadText w.checker cs allowCycles = .ok story := by
  unfold loadFile at h
  split at h
  · cases h
  · cases h
  · cases h
  · split at h
    · next hload =>
      cases h
      exact ⟨_, hload⟩
    · cases h
    · cases h
    · cases h
    · cases h
    · cases h

/-- Who begins to play a story interactively. -/
def reader (w : World) (story : Story) : Playthrough :=
  .begin story ∅ (story.begin {}) (.withItems ∅ []) w.dice

theorem run_play {w : World} {file : String} (h : loadFile w file true = .story story) :
    (Command.play file [] none).run w = converse (reader w story) w.lines := by
  simp only [Command.run, beginPlay, h, loadCatalog]
  rfl

/-- Playing an accepted story whose effects never fail, without choices given beforehand and without a
catalog, is a conversation, whatever the lines are.  It shows the choices in order with their numbers,
and it ends well unless a line cannot be read as a number. -/
theorem play_answers_every_line {w : World} {file : String} (hpasses : w.checker.PassesOn)
    (hload : loadFile w file true = .story story) (hsound : story.Unfailing) :
    Conversation (reader w story) w.lines ((Command.play file [] none).run w) ∧
    ((∀ line ∈ w.lines, lineFailure? line = none) →
      ((Command.play file [] none).run w).ending = .exit 0) ∧
    ∀ (p : Playthrough) (choices : List Choice) (k : Nat) (c : Choice), choices[k]? = some c →
      ∃ before after, screen p choices = before ++ choiceLine (k + 1) c ++ after := by
  obtain ⟨cs, htext⟩ := loadText_of_loadFile hload
  have hshort : story.Short := Story.short_of_loadText hpasses htext
  rw [run_play hload]
  have hconversation : Conversation (reader w story) w.lines (converse (reader w story) w.lines) :=
    conversation_converse (.text htext) hshort hsound _ _ rfl .refl
  refine ⟨hconversation, ?_, fun p choices k c => screen_shows_choice⟩
  intro hreadable
  refine hconversation.ending_cases.resolve_right ?_
  rintro ⟨line, hline, failure, hfailure, -⟩
  rw [hreadable line hline] at hfailure
  cases hfailure

/-! ### In the attic -/

open Playthrough (attic atticDocument)

/-- A file with the story of the attic, and lines to play it. -/
def atticWorld (lines : List String) : World where
  environment _ := none
  file name :=
    if name = "attic.json" then .text (.ok (String.ofList atticDocument.compact)) else .missing
  lines := lines
  dice := .ofList []
  checker := Schema.checker

/-- A story is loaded from a file with a text that is tidy already. -/
theorem loadFile_of_loadText {w : World} {name : String} {cs : List Char}
    (hname : tidyName name = name) (hfile : w.file name = .text (.ok (String.ofList cs)))
    (hbreaks : unifyLineBreaks cs = cs)
    (hload : Story.loadText w.checker cs allowCycles = .ok story) :
    loadFile w name allowCycles = .story story := by
  unfold loadFile
  rw [hname, hfile]
  simp only [String.toList_ofList, hbreaks, hload]

theorem load_attic (lines : List String) :
    loadFile (atticWorld lines) "attic.json" true = .story attic := by
  have hfile : (atticWorld lines).file "attic.json" =
      .text (.ok (String.ofList atticDocument.compact)) := by
    simp only [atticWorld, ↓reduceIte]
  have hread : Datum.readWritten atticDocument.compact = .ok atticDocument :=
    Datum.readWritten_compact (by decide +kernel)
  have hnoted : Story.notedKeys atticDocument = [] := by decide +kernel
  have hload : Story.loadText Schema.checker atticDocument.compact true = .ok attic := by
    rw [Story.loadText, hread]
    show Story.load Schema.checker atticDocument.settle true (Story.notedKeys atticDocument) =
      .ok attic
    rw [hnoted]
    rfl
  exact loadFile_of_loadText (by decide +kernel) hfile (by decide +kernel) hload

theorem attic_unfailing : attic.Unfailing :=
  Story.Unmixed.unfailing (by decide) (by decide +kernel)

/-- A choice by its number, one by a number in other digits, something that is no choice, and leave. -/
def atticLines : List String :=
  ["1", " \u0662\t", "jump", "quit"]

theorem play_answers_every_line_attic :
    (atticWorld atticLines).checker.PassesOn ∧
    loadFile (atticWorld atticLines) "attic.json" true = .story attic ∧ attic.Unfailing ∧
    Conversation (reader (atticWorld atticLines) attic) atticLines
      ((Command.play "attic.json" [] none).run (atticWorld atticLines)) ∧
    ((Command.play "attic.json" [] none).run (atticWorld atticLines)).ending = .exit 0 := by
  have hpasses : (atticWorld atticLines).checker.PassesOn := Schema.checker_passesOn
  have hload := load_attic atticLines
  obtain ⟨hconversation, hends, -⟩ := play_answers_every_line hpasses hload attic_unfailing
  exact ⟨hpasses, hload, attic_unfailing, hconversation, hends (by decide +kernel)⟩

/-- A line that is a superscript digit breaks off: it is a digit, but no decimal one. -/
theorem superscript_not_answered :
    loadFile (atticWorld ["\u00b2"]) "attic.json" true = .story attic ∧ attic.Unfailing ∧
    ((Command.play "attic.json" [] none).run (atticWorld ["\u00b2"])).ending =
      .failed (.noNumber "\u00b2") := by
  have hload := load_attic ["\u00b2"]
  have hoffers : Offers (reader (atticWorld ["\u00b2"]) attic) [Playthrough.lighting] :=
    ⟨rfl, List.cons_ne_nil _ _⟩
  have hanswer : understand [Playthrough.lighting] "\u00b2" = .noNumber "\u00b2" := by
    decide +kernel
  have hreply : reply (reader (atticWorld ["\u00b2"]) attic) [Playthrough.lighting] "\u00b2" =
      .noNumber "\u00b2" := by
    simp only [reply, hanswer]
  refine ⟨hload, attic_unfailing, ?_⟩
  rw [run_play hload]
  show (converse (reader (atticWorld ["\u00b2"]) attic) ["\u00b2"]).ending = _
  rw [converse_of_offers hoffers]
  simp only [hreply]
  rfl

end Shell

end Gamebook
