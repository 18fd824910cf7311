import Gamebook.Proofs.Independence
import Gamebook.Proofs.Offered

/-!
# What a choice is going to do

The choices that a play-through offers carry the outcomes that are going to be applied.  The outcome of
an offered choice is found on that choice, and the one that is applied on the first choice of the node
with the id that is asked for; in an accepted story the two are the same choice.  What the outcome does
to the inventory can be told beforehand as well (`Inventory.idsAfter`), as owned ids are all different.
So taking a choice does what was shown, and there is nothing to take exactly when the play-through is
finished (`Playthrough.choice_foreseen`).

Blanks around the tag of an outcome do not count, no more than its case; a tag that is only compared
in upper case foretells something else (`Playthrough.dropping_not_foreseen`).
-/

namespace Gamebook

namespace Playthrough

variable {p q : Playthrough} {asked : Datum} {c : Choice} {cs : List Choice} {e : TurnError}

/-! ## Offered choices -/

theorem exists_available_of_choices (h : p.choices = .ok cs) :
    ∃ available, p.story.available p.session = .ok available ∧ cs = available.map p.withOutcome := by
  unfold choices at h
  cases havailable : p.story.available p.session with
  | error e =>
    rw [havailable] at h
    cases h
  | ok available =>
    rw [havailable] at h
    cases h
    exact ⟨available, rfl, rfl⟩

theorem fst_choose_eq_some_iff : (p.choose asked).1 = some e ↔
    (p.story.turn p.session asked p.dice).result = .error e := by
  rcases hturn : p.story.turn p.session asked p.dice with ⟨e' | session, dice⟩
  · simp [choose_of_error hturn]
  · simp [choose_of_ok hturn]

theorem outcomeFor_of_chosen (h : p.story.chosen p.session asked = .ok c) :
    p.outcomeFor asked = p.outcomeOf c := by
  obtain ⟨node, -, hnode, -, hasked, -⟩ := Story.chosen_eq_ok_iff.1 h
  rw [outcomeFor, asked?, hnode, Option.bind_some, hasked, Option.bind_some]

/-- A choice that is taken leaves the outcome that was found for it, and what is owned after it. -/
theorem outcome_of_taken (hnodup : p.inventory.ids.Nodup) (taken : p.choose asked = (none, q)) :
    q.lastOutcome = p.outcomeFor asked ∧
      q.inventory.ids = p.inventory.idsAfter ItemChange.word (p.outcomeFor asked) := by
  rcases hturn : p.story.turn p.session asked p.dice with ⟨e' | session, dice⟩
  · rw [choose_of_error hturn] at taken
    cases taken
  · rw [choose_of_ok hturn] at taken
    cases taken
    refine ⟨rfl, ?_⟩
    cases p.outcomeFor asked with
    | none => rfl
    | some o => exact p.inventory.ids_applyOutcome hnodup o

/-- It can be settled that no choice is available exactly if every choice is refused. -/
theorem isFinished_iff (p : Playthrough) : p.isFinished = .ok true ↔
    ∀ id : String, ∃ e, (p.choose (.text id)).1 = some (.choice e) := by
  simp only [isFinished, fst_choose_eq_some_iff]
  cases havailable : p.story.available p.session with
  | error e =>
    simp [Story.turn_of_not_chosen (Story.chosen_of_available_error havailable), Except.map]
  | ok available =>
    have hrefused (id : String) :
        (∃ e, (p.story.turn p.session (.text id) p.dice).result = .error (.choice e)) ↔
          ∀ c, ¬ p.story.Open p.session (.text id) c :=
      Story.turn_refused_iff havailable rfl
    simp only [Except.map, Except.ok.injEq, List.isEmpty_iff, List.eq_nil_iff_forall_not_mem,
      hrefused, Story.open_iff havailable]
    constructor
    · rintro h id c ⟨-, hc⟩
      exact h c hc
    · exact fun h c hc => h c.id c ⟨rfl, hc⟩

variable {story : Story} {allowCycles : Bool} {outcomes : Table Outcome} {session : Session}
  {catalog : Catalog} {items : List String} {dice : Dice}

/-- In an accepted story, whatever has been done before: a choice that is offered, if it can be taken,
leaves the outcome that it was offered with, changes what is owned just as that outcome says, and makes
the history longer by one; and the play-through is finished exactly if every choice is refused. -/
theorem choice_foreseen (h : story.Accepted allowCycles)
    (hp : Reached (begin story outcomes session (.withItems catalog items) dice) p) :
    (∀ cs, p.choices = .ok cs → ∀ c ∈ cs, ∀ q, p.choose (.text c.id) = (none, q) →
        q.lastOutcome = c.outcome ∧
          q.inventory.ids = p.inventory.idsAfter ItemChange.word c.outcome ∧
          q.history.length = p.history.length + 1) ∧
      (p.isFinished = .ok true ↔
        ∀ id : String, ∃ e, (p.choose (.text id)).1 = some (.choice e)) := by
  have hkept := hp.kept
  have hnodup : p.inventory.ids.Nodup :=
    hkept.inventory.nodup (Inventory.withItems_sound catalog items).1
  refine ⟨fun cs hcs c hc q taken => ?_, p.isFinished_iff⟩
  obtain ⟨available, havailable, rfl⟩ := exists_available_of_choices hcs
  obtain ⟨d, hd, rfl⟩ := List.mem_map.1 hc
  have hstory : p.story = story := hkept.story
  have hchosen : p.story.chosen p.session (.text d.id) = .ok d :=
    (hstory ▸ h : p.story.Accepted allowCycles).chosen_of_available havailable hd
  have taken : p.choose (.text d.id) = (none, q) := taken
  obtain ⟨houtcome, hids⟩ := outcome_of_taken hnodup taken
  rw [outcomeFor_of_chosen hchosen] at houtcome hids
  refine ⟨houtcome, hids, ?_⟩
  rw [(kept_of_taken taken).2, List.length_cons]

/-- A story of a lamp in an attic, which can be put down once it has been lit. -/
def attic : Story where
  kind := ""
  start := "attic"
  flags := ∅
  resources := ∅
  nodes := .ofEntries [("attic", ⟨"attic", "", [
    ⟨"light", "", "attic", [], [.setFlag "light" true], some ⟨"add_item", some "lamp"⟩⟩,
    ⟨"drop", "", "attic", [.flagIs "light" true], [], none⟩]⟩)]

/-- A document of the story `attic`. -/
def atticDocument : Datum :=
  .object [("startNode", .text "attic"), ("nodes", .object [("attic", .object [("choices", .list [
    .object [("id", .text "light"), ("target", .text "attic"),
      ("effects", .list [.object [("type", .text "setFlag"), ("key", .text "light")]]),
      ("outcome", .object [("type", .text "add_item"), ("value", .text "lamp")])],
    .object [("id", .text "drop"), ("target", .text "attic"),
      ("conditions", .list [.object [("type", .text "flag"), ("key", .text "light")]])]])])])]

theorem attic_accepted : attic.Accepted true :=
  .document (show Story.load Schema.checker atticDocument true [] = .ok attic by rfl)

/-- Someone in the attic.  What dropping does to the inventory is registered with a blank. -/
def lodger : Playthrough :=
  begin attic (.ofEntries [("drop", ⟨" Remove_Item", some "lamp"⟩)]) (attic.begin {})
    (.withItems (.ofItems [⟨"lamp", "", "", .int 0⟩, ⟨"cup", "", "", .int 0⟩]) ["cup"]) (.ofList [])

/-- The lamp is lit. -/
def lit : Playthrough :=
  lodger.act (.choose (.text "light"))

/-- The choice of lighting the lamp, as it is offered. -/
def lighting : Choice :=
  ⟨"light", "", "attic", [], [.setFlag "light" true], some ⟨"add_item", some "lamp"⟩⟩

/-- The choice of dropping the lamp, as it is offered. -/
def dropping : Choice :=
  ⟨"drop", "", "attic", [.flagIs "light" true], [], some ⟨" Remove_Item", some "lamp"⟩⟩

theorem choice_foreseen_attic : attic.Accepted true ∧ Reached lodger lit ∧
    lit.inventory.ids = ["cup", "lamp"] ∧ lit.choices = .ok [lighting, dropping] ∧
    ∃ q, lit.choose (.text "drop") = (none, q) ∧ q.lastOutcome = dropping.outcome ∧
      q.inventory.ids = ["cup"] ∧ q.history.length = 2 ∧
      (lit.isFinished = .ok true ↔
        ∀ id : String, ∃ e, (lit.choose (.text id)).1 = some (.choice e)) := by
  have hreached : Reached lodger lit := ⟨[.choose (.text "light")], rfl⟩
  have hoffered : lit.choices = .ok [lighting, dropping] := rfl
  have htaken := lit.choose_eq_act (.text "drop") (by decide +kernel)
  obtain ⟨hchoice, hfinished⟩ := choice_foreseen attic_accepted hreached
  obtain ⟨houtcome, hids, hdepth⟩ :=
    hchoice _ hoffered dropping (List.mem_cons_of_mem _ List.mem_cons_self) _ htaken
  have hafter : lit.inventory.idsAfter ItemChange.word dropping.outcome = ["cup"] := by decide +kernel
  exact ⟨attic_accepted, hreached, by decide +kernel, hoffered, _, htaken, houtcome,
    hids.trans hafter, hdepth, hfinished⟩

/-- With a tag that is compared in upper case only, dropping the lamp would leave it. -/
theorem dropping_not_foreseen : attic.Accepted true ∧ Reached lodger lit ∧
    lit.choices = .ok [lighting, dropping] ∧
    ∃ q, lit.choose (.text dropping.id) = (none, q) ∧
      q.inventory.ids ≠
        lit.inventory.idsAfter (fun tag => String.ofList (Text.upper tag.toList)) dropping.outcome :=
  ⟨attic_accepted, ⟨[.choose (.text "light")], rfl⟩, rfl, _,
    lit.choose_eq_act (.text "drop") (by decide +kernel), by decide +kernel⟩

end Playthrough

end Gamebook
