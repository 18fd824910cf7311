import Gamebook.Story.Document
import Gamebook.Story.Validation
import Gamebook.Proofs.EffectText
import Gamebook.Proofs.SchemaLaws

/-!
# Stories read again

A story that was read from a document is written as a document that reads as the same story
(`Story.written_story_reads_back`), whatever spellings it was read from, if its numbers are in range.

Every value in the written document has exactly the type of its field, whatever story it is
(`Document.isStory_toDatum`), so that a checker that keeps such documents leaves what the story consists
of.  That the conditions and effects in it are then read as they were is due to how they were read: a
tagged object is written again as one, and verbatim text as a text, which is kept verbatim a second time.
-/

namespace Gamebook

@[simp] theorem Datum.member?_nil (name : String) : member? name [] = none := rfl

/-! ## Stories as checked documents -/

theorem Condition.toData_eq_map (cs : List Condition) : toData cs = cs.map toDatum := by
  induction cs with
  | nil => rfl
  | cons c cs ih => rw [toData, ih, List.map_cons]

theorem Effect.toData_eq_map (es : List Effect) : toData es = es.map toDatum := by
  induction es with
  | nil => rfl
  | cons e es ih => rw [toData, ih, List.map_cons]

/-- What the check of its datum leaves of a choice. -/
def Choice.form (c : Choice) : Document.ChoiceForm :=
  ⟨c.id, c.text, c.target, Condition.toData c.conditions, Effect.toData c.effects, c.outcome⟩

/-- What the check of its datum leaves of a node. -/
def Node.form (n : Node) : Document.NodeForm :=
  ⟨some n.id, n.text, n.choices.map Choice.form⟩

/-- What the check of its datum leaves of a story. -/
def Story.form (s : Story) : Document.StoryForm :=
  ⟨s.kind, s.start, s.flags, s.resources, s.nodes.map Node.form⟩

namespace Document

section

variable {α β : Type} {Is : Datum → α → Prop} {f : β → Datum} {g : β → α}

theorem isList_map (h : ∀ b, Is (f b) (g b)) (bs : List β) :
    IsList Is (.list (bs.map f)) (bs.map g) := by
  refine ⟨_, rfl, ?_⟩
  induction bs with
  | nil => exact .nil
  | cons b bs ih => exact .cons (h b) ih

theorem isTable_map (h : ∀ b, Is (f b) (g b)) (t : Table β) :
    IsTable Is (.object (t.map f).entries) (t.map g) := by
  refine ⟨_, rfl, ?_⟩
  show List.Forall₂ _ (t.entries.map fun e => (e.1, f e.2)) (t.entries.map fun e => (e.1, g e.2))
  induction t.entries with
  | nil => exact .nil
  | cons e es ih => exact .cons ⟨rfl, h e.2⟩ ih

theorem isTable_same {f : α → Datum} (h : ∀ a, Is (f a) a) (t : Table α) :
    IsTable Is (.object (t.map f).entries) t := by
  have key := isTable_map (g := id) h t
  rwa [t.map_id] at key

theorem orNull_list {value as : List α} {items : List Datum} (h : IsList Is (.list items) as) :
    OrNull value (IsList Is) (.list items) as :=
  .kept (fun heq => by cases heq) h

theorem orNull_text (value s : String) : OrNull value IsText (.text s) s :=
  .kept (fun heq => by cases heq) rfl

theorem orNull_table {value t : Table α} {ms : List (String × Datum)}
    (h : IsTable Is (.object ms) t) : OrNull value (IsTable Is) (.object ms) t :=
  .kept (fun heq => by cases heq) h

theorem isOptional_some {d : Datum} {a : α} (hd : d ≠ .null) (h : Is d a) :
    IsOptional Is d (some a) :=
  .kept hd ⟨a, rfl, h⟩

end

theorem isOutcome_toDatum (o : Outcome) : IsObject IsOutcome o.toDatum o := by
  obtain ⟨type, value⟩ := o
  refine ⟨_, rfl, ?_⟩
  cases value with
  | none => exact ⟨rfl, rfl⟩
  | some v => exact ⟨rfl, isOptional_some (fun h => by cases h) rfl⟩

theorem isObjectOrText_condition (c : Condition) : IsObjectOrText c.toDatum c.toDatum := by
  refine ⟨rfl, ?_⟩
  cases c with
  | verbatim s => exact .inr ⟨s, rfl⟩
  | _ => exact .inl ⟨_, rfl⟩

theorem isObjectOrText_effect (e : Effect) : IsObjectOrText e.toDatum e.toDatum := by
  refine ⟨rfl, ?_⟩
  cases e with
  | verbatim s => exact .inr ⟨s, rfl⟩
  | _ => exact .inl ⟨_, rfl⟩

theorem isChoice_toDatum (c : Choice) : IsObject IsChoice c.toDatum c.form := by
  obtain ⟨id, text, target, conditions, effects, outcome⟩ := c
  have hconditions : IsList IsObjectOrText (.list (Condition.toData conditions))
      (Condition.toData conditions) := by
    rw [Condition.toData_eq_map]
    exact isList_map isObjectOrText_condition conditions
  have heffects : IsList IsObjectOrText (.list (Effect.toData effects)) (Effect.toData effects) := by
    rw [Effect.toData_eq_map]
    exact isList_map isObjectOrText_effect effects
  have houtcome (o : Outcome) : IsOptional (IsObject IsOutcome) o.toDatum (some o) :=
    isOptional_some (fun h => by cases h) (isOutcome_toDatum o)
  refine ⟨_, rfl, rfl, orNull_text "" text, orNull_text "" target, ?_, ?_, ?_⟩
  -- what is left out of the datum is the default of its field
  · cases conditions with
    | nil => cases effects <;> cases outcome <;> rfl
    | cons => exact orNull_list hconditions
  · cases effects with
    | nil => cases conditions <;> cases outcome <;> rfl
    | cons => cases conditions <;> exact orNull_list heffects
  · cases outcome with
    | none => cases conditions <;> cases effects <;> rfl
    | some o => cases conditions <;> cases effects <;> exact houtcome o

theorem isNode_toDatum (n : Node) : IsObject IsNode n.toDatum n.form :=
  ⟨_, rfl, isOptional_some (fun h => by cases h) rfl, orNull_text "" n.text,
    orNull_list (isList_map isChoice_toDatum n.choices)⟩

theorem isStory_toDatum (s : Story) : IsObject IsStory s.toDatum s.form :=
  ⟨_, rfl, rfl, rfl, orNull_table (isTable_same (f := Datum.truth) (fun _ => rfl) s.flags),
    orNull_table (isTable_same (f := Datum.number) (fun _ => rfl) s.resources),
    isTable_map isNode_toDatum s.nodes⟩

end Document

/-! ## Numbers -/

/-- The numbers with which the conditions of a choice compare or its effects calculate. -/
def Choice.numbers (c : Choice) : List Number :=
  Condition.numbersOfAll c.conditions ++ Effect.numbersOfAll c.effects

/-- The numbers of the choices of a node. -/
def Node.numbers (n : Node) : List Number :=
  n.choices.flatMap Choice.numbers

/-- The numbers of the choices of a story. -/
def Story.numbers (s : Story) : List Number :=
  s.nodes.entries.flatMap fun e => e.2.numbers

/-! ## Reading again -/

namespace Document

open Text (strip)

section

variable {place : String} {d : Datum} {c : Condition} {e : Effect}

theorem readCondition_of_wellFormed (h : c.WellFormed) (hverbatim : ∀ s, c ≠ .verbatim s)
    (place : String) : readCondition place c.toDatum = .ok (some c) := by
  have hread := Condition.ofDatum_toDatum h
  obtain ⟨ms, hms⟩ := Condition.exists_toDatum_eq hverbatim
  rw [hms] at hread ⊢
  simp only [readCondition, hread]

/-- What a condition was read from may be a text, an object or an older spelling of one; the datum that
is written for it reads as the same condition. -/
theorem readCondition_toDatum (h : readCondition place d = .ok (some c))
    (hfinite : ∀ n ∈ c.numbers, n.isFinite = .ok true) (place : String) :
    readCondition place c.toDatum = .ok (some c) := by
  cases d with
  | text s =>
    have htext := mapError_eq_ok h
    rcases Condition.ofStripped_cases (Condition.ofText_eq_ok htext) with hc | ⟨hverbatim, hwell⟩
    · -- verbatim text is kept without blanks around it, which did not count
      rw [hc] at htext ⊢
      simp only [Condition.toDatum, readCondition, String.toList_ofList, Condition.ofText_strip,
        htext]
      rfl
    · exact readCondition_of_wellFormed (hwell hfinite) hverbatim place
  | object ms =>
    unfold readCondition at h
    simp only at h
    split at h
    · next hread =>
      cases h
      exact readCondition_of_wellFormed (Condition.wellFormed_of_ofDatum _ hread)
        (Condition.ne_verbatim_of_ofDatum hread) place
    · cases h
    · cases h
  | _ => cases h

theorem readEffect_of_wellFormed (h : e.WellFormed) (hverbatim : ∀ s, e ≠ .verbatim s)
    (place : String) : readEffect place e.toDatum = .ok (some e) := by
  have hread := Effect.ofDatum_toDatum h
  obtain ⟨ms, hms⟩ := Effect.exists_toDatum_eq hverbatim
  rw [hms] at hread ⊢
  simp only [readEffect, hread]

/-- The datum that is written for an effect reads as the same effect, whatever it was read from. -/
theorem readEffect_toDatum (h : readEffect place d = .ok (some e))
    (hfinite : ∀ n ∈ e.numbers, n.isFinite = .ok true) (place : String) :
    readEffect place e.toDatum = .ok (some e) := by
  cases d with
  | text s =>
    have htext := mapError_eq_ok h
    rcases Effect.reading_of_ofStripped (Effect.ofText_eq_ok htext) with he | ⟨hverbatim, hwell⟩
    · rw [he] at htext ⊢
      simp only [Effect.toDatum, readEffect, String.toList_ofList, Effect.ofText_strip, htext]
      rfl
    · exact readEffect_of_wellFormed (hwell hfinite) hverbatim place
  | object ms =>
    unfold readEffect at h
    simp only at h
    split at h
    · next hread =>
      cases h
      exact readEffect_of_wellFormed (Effect.wellFormed_of_ofDatum _ hread)
        (Effect.ne_verbatim_of_ofDatum hread) place
    · cases h
    · cases h
  | _ => cases h

end

section

variable {α β γ : Type} {read : String → α → Except StoryError β}

/-- What is read from a list is read from its items. -/
theorem exists_of_mem_readEach {place : String} {i : Nat} {as : List α} {bs : List β}
    (h : readEach read place i as = .ok bs) :
    ∀ b ∈ bs, ∃ place, ∃ a ∈ as, read place a = .ok b := by
  induction as generalizing i bs with
  | nil =>
    cases h
    exact List.forall_mem_nil _
  | cons a as ih =>
    obtain ⟨b, hb, h⟩ := bind_eq_ok_iff.1 h
    obtain ⟨bs', hbs, h⟩ := bind_eq_ok_iff.1 h
    cases h
    refine List.forall_mem_cons.2 ⟨⟨_, a, List.mem_cons_self, hb⟩, fun b hb => ?_⟩
    obtain ⟨place, a, ha, hread⟩ := ih hbs b hb
    exact ⟨place, a, List.mem_cons_of_mem _ ha, hread⟩

theorem readEach_map {f : γ → α} {g : γ → β} {cs : List γ}
    (h : ∀ c ∈ cs, ∀ place, read place (f c) = .ok (g c)) (place : String) (i : Nat) :
    readEach read place i (cs.map f) = .ok (cs.map g) := by
  induction cs generalizing i with
  | nil => rfl
  | cons c cs ih =>
    rw [List.map_cons, readEach, h c List.mem_cons_self,
      ih fun c hc => h c (List.mem_cons_of_mem _ hc)]
    rfl

/-- Where each item that was kept is read again from its datum, so are all of them. -/
theorem readEach_kept {read : String → α → Except StoryError (Option β)} {f : β → α}
    {place : String} {i : Nat} {as : List α} {bs : List (Option β)}
    (h : readEach read place i as = .ok bs)
    (hread : ∀ b ∈ bs.filterMap id, ∀ place a, read place a = .ok (some b) →
      ∀ place, read place (f b) = .ok (some b)) (place : String) (i : Nat) :
    readEach read place i ((bs.filterMap id).map f) = .ok ((bs.filterMap id).map some) := by
  refine readEach_map (fun b hb place => ?_) place i
  obtain ⟨_, hmem, rfl⟩ := List.mem_filterMap.1 hb
  obtain ⟨_, _, -, hfirst⟩ := exists_of_mem_readEach h _ hmem
  exact hread b hb _ _ hfirst place

end

theorem readChoice_form {place : String} {form : ChoiceForm} {c : Choice}
    (h : readChoice place form = .ok c) (hfinite : ∀ n ∈ c.numbers, n.isFinite = .ok true)
    (place : String) : readChoice place c.form = .ok c := by
  obtain ⟨conditions, hconditions, h⟩ := bind_eq_ok_iff.1 h
  obtain ⟨effects, heffects, h⟩ := bind_eq_ok_iff.1 h
  cases h
  have hconditions' := readEach_kept (f := Condition.toDatum) hconditions fun c hc _ _ hread =>
    readCondition_toDatum hread fun n hn =>
      hfinite n (List.mem_append_left _ (Condition.mem_numbersOfAll.2 ⟨c, hc, hn⟩))
  have heffects' := readEach_kept (f := Effect.toDatum) heffects fun e he _ _ hread =>
    readEffect_toDatum hread fun n hn =>
      hfinite n (List.mem_append_right _ (Effect.mem_numbersOfAll.2 ⟨e, he, hn⟩))
  unfold readChoice Choice.form
  simp only [Condition.toData_eq_map, Effect.toData_eq_map]
  rw [hconditions', heffects']
  simp

theorem readNode_form {key : String} {form : NodeForm} {n : Node} (h : readNode key form = .ok n)
    (hfinite : ∀ m ∈ n.numbers, m.isFinite = .ok true) : readNode key n.form = .ok n := by
  obtain ⟨choices, hchoices, h⟩ := bind_eq_ok_iff.1 h
  obtain ⟨id, hid⟩ : ∃ id, n = ⟨id, form.text, choices⟩ := ⟨_, (Except.ok.inj h).symm⟩
  subst hid
  -- the id is empty only if the key is, to which an empty id defaults again
  have hkey : (if id = "" then key else id) = id := by
    have hdefault := congrArg Node.id (Except.ok.inj h)
    simp only at hdefault
    grind
  have hforms : readEach readChoice s!"nodes.{key}.choices" 0 (choices.map Choice.form) =
      .ok (choices.map fun c => c) := by
    refine readEach_map (fun c hc place => ?_) _ _
    obtain ⟨_, _, -, hread⟩ := exists_of_mem_readEach hchoices c hc
    exact readChoice_form hread (fun m hm => hfinite m (List.mem_flatMap.2 ⟨c, hc, hm⟩)) place
  unfold readNode Node.form
  simp only
  rw [hforms, List.map_id', ok_bind, hkey]
  rfl

/-- The nodes that are read have the keys and the order of the document. -/
theorem keys_readNodes {forms : List (String × NodeForm)} {nodes : List (String × Node)}
    (h : readNodes forms = .ok nodes) : nodes.map Prod.fst = forms.map Prod.fst := by
  induction forms generalizing nodes with
  | nil =>
    cases h
    rfl
  | cons f forms ih =>
    obtain ⟨node, -, h⟩ := bind_eq_ok_iff.1 h
    obtain ⟨rest, hrest, h⟩ := bind_eq_ok_iff.1 h
    cases h
    rw [List.map_cons, List.map_cons, ih hrest]

theorem readNodes_form {forms : List (String × NodeForm)} {nodes : List (String × Node)}
    (h : readNodes forms = .ok nodes)
    (hfinite : ∀ e ∈ nodes, ∀ m ∈ e.2.numbers, m.isFinite = .ok true) :
    readNodes (nodes.map fun e => (e.1, e.2.form)) = .ok nodes := by
  induction forms generalizing nodes with
  | nil =>
    cases h
    rfl
  | cons f forms ih =>
    obtain ⟨node, hnode, h⟩ := bind_eq_ok_iff.1 h
    obtain ⟨rest, hrest, h⟩ := bind_eq_ok_iff.1 h
    cases h
    obtain ⟨hfirst, hothers⟩ := List.forall_mem_cons.1 hfinite
    rw [List.map_cons, readNodes, readNode_form hnode hfirst, ih hrest hothers]
    rfl

end Document

namespace Story

variable {checker : Checker}

/-- A story is read from what a check leaves of its document. -/
theorem exists_form_of_ofDatum {d : Datum} {s : Story} (h : ofDatum checker d = .ok s) :
    ∃ form : Document.StoryForm, form.read = .ok s := by
  unfold ofDatum at h
  split at h
  · cases h
  · cases h
  · next form _ => exact ⟨form, h⟩

/-- A story is read with the nodes of its document, each under its own key. -/
theorem readNodes_of_read {form : Document.StoryForm} {s : Story} (h : form.read = .ok s) :
    Document.readNodes form.nodes.entries = .ok s.nodes.entries := by
  obtain ⟨nodes, hnodes, h⟩ := bind_eq_ok_iff.1 h
  cases h
  have hnodup : (nodes.map Prod.fst).Nodup := by
    rw [Document.keys_readNodes hnodes]
    exact form.nodes.nodup
  exact hnodes.trans (congrArg _ (Table.entries_ofEntries hnodup).symm)

/-- The document of a story is read as what the story consists of. -/
theorem ofDatum_toDatum (hkeeps : checker.KeepsStories) (s : Story) :
    ofDatum checker s.toDatum = s.form.read := by
  unfold ofDatum
  rw [hkeeps _ _ (Document.isStory_toDatum s)]

/-- A story that was read from a document is written as a document that reads as the same story, in each
of its parts, so that the same issues are found in it. -/
theorem written_story_reads_back (hkeeps : checker.KeepsStories) {d : Datum} {s : Story}
    (hread : ofDatum checker d = .ok s) (hfinite : ∀ n ∈ s.numbers, n.isFinite = .ok true) :
    ∃ reread, ofDatum checker s.toDatum = .ok reread ∧ reread = s ∧
      ∀ allowCycles listed, reread.issues allowCycles listed = s.issues allowCycles listed := by
  obtain ⟨form, hform⟩ := exists_form_of_ofDatum hread
  have hnodes := Document.readNodes_form (readNodes_of_read hform) fun e he m hm =>
    hfinite m (List.mem_flatMap.2 ⟨e, he, hm⟩)
  refine ⟨s, ?_, rfl, fun _ _ => rfl⟩
  rw [ofDatum_toDatum hkeeps, Document.StoryForm.read]
  have hentries : s.form.nodes.entries = s.nodes.entries.map fun e => (e.1, e.2.form) := rfl
  rw [hentries, hnodes, ok_bind, Table.ofEntries_entries]
  rfl

/-! ### A document in older spellings -/

/-- Texts with blanks around them: a test in shorthand, no condition, and text that is kept. -/
def legacyConditions : List Datum :=
  [.text " resource: gold = 2 ", .text " ", .text "perhaps "]

/-- An object with its amount in another field, and a goto in shorthand. -/
def legacyEffects : List Datum :=
  [.object [("type", .text "addResource"), ("key", .text "gold"), ("value", .number (.int (-1)))],
    .text "goto: yard "]

/-- A document with a field by its other name, a number in a text, null for a text and for the value of
an outcome, and nodes without ids. -/
def legacyDocument : Datum :=
  .object [("start_node", .text "hall"), ("resources", .object [("gold", .text "3")]),
    ("nodes", .object [
      ("hall", .object [("choices", .list [
        .object [("id", .text "open"), ("text", .null), ("target", .text "yard"),
          ("conditions", .list legacyConditions), ("effects", .list legacyEffects),
          ("outcome", .object [("type", .text "gain"), ("value", .null)])]])]),
      ("yard", .object [("id", .text ""), ("text", .text "The end.")])])]

/-- The document as it is checked. -/
def legacyForm : Document.StoryForm where
  kind := ""
  start := "hall"
  flags := ∅
  resources := Table.ofEntries [("gold", .int 3)]
  nodes := Table.ofEntries [
    ("hall", ⟨none, "", [⟨"open", "", "yard", legacyConditions, legacyEffects, some ⟨"gain", none⟩⟩]⟩),
    ("yard", ⟨some "", "The end.", []⟩)]

/-- The story that the document tells. -/
def legacyStory : Story where
  kind := ""
  start := "hall"
  flags := ∅
  resources := Table.ofEntries [("gold", .int 3)]
  nodes := Table.ofEntries [
    ("hall", ⟨"hall", "", [⟨"open", "", "yard",
      [.resourceIs "gold" .equal (.int 2), .verbatim "perhaps"],
      [.addResource "gold" (.int (-1)), .goto "yard"], some ⟨"gain", none⟩⟩]⟩),
    ("yard", ⟨"yard", "The end.", []⟩)]

theorem readEach_legacyConditions (place : String) :
    Document.readEach Document.readCondition place 0 legacyConditions =
      .ok [some (.resourceIs "gold" .equal (.int 2)), none, some (.verbatim "perhaps")] := by
  have hstrip : Text.strip " resource: gold = 2 ".toList = "resource: gold = 2".toList := by decide
  have hread : Condition.ofShorthand? "resource: gold = 2".toList =
      .ok (some (.resourceIs "gold" .equal (.int 2))) := by rfl
  have htest : Condition.ofText " resource: gold = 2 ".toList =
      .ok (some (.resourceIs "gold" .equal (.int 2))) := by
    unfold Condition.ofText
    rw [hstrip]
    simp only [Condition.ofStripped, hread]
    rfl
  have hblank : Condition.ofText " ".toList = .ok none := by rfl
  have hkept : Condition.ofText "perhaps ".toList = .ok (some (.verbatim "perhaps")) := by rfl
  simp only [legacyConditions, Document.readEach, Document.readCondition, htest, hblank, hkept]
  rfl

theorem readEach_legacyEffects (place : String) :
    Document.readEach Document.readEffect place 0 legacyEffects =
      .ok [some (.addResource "gold" (.int (-1))), some (.goto "yard")] := by
  have hfinite : (Number.int (-1)).isFinite = .ok true := by decide +kernel
  have hadd : Effect.ofDatum (.object [("type", .text "addResource"), ("key", .text "gold"),
      ("value", .number (.int (-1)))]) = .ok (.addResource "gold" (.int (-1))) := by
    have hfield : Effect.deltaField [("type", .text "addResource"), ("key", .text "gold"),
        ("value", .number (.int (-1)))] = "value" := by rfl
    simp [Effect.ofDatum, hfield, Tagged.key, Tagged.number, Tagged.require, hfinite]
  have hstrip : Text.strip "goto: yard ".toList = "goto: yard".toList := by decide
  have hread : Effect.ofShorthand? "goto: yard".toList = .ok (some (.goto "yard")) := by rfl
  have hgoto : Effect.ofText "goto: yard ".toList = .ok (some (.goto "yard")) := by
    unfold Effect.ofText
    dsimp only
    rw [hstrip, Effect.ofStripped_simple rfl, hread]
    rfl
  simp only [legacyEffects, Document.readEach, Document.readEffect, hadd, hgoto]
  rfl

theorem ofDatum_legacyDocument : ofDatum Schema.checker legacyDocument = .ok legacyStory := by
  have hform : Schema.checker.story legacyDocument = .ok legacyForm := by rfl
  have hnodes : Document.readNodes legacyForm.nodes.entries = .ok legacyStory.nodes.entries := by
    show Document.readNodes [_, _] = _
    simp only [Document.readNodes, Document.readNode, Document.readEach, Document.readChoice,
      readEach_legacyConditions, readEach_legacyEffects]
    rfl
  unfold ofDatum
  rw [hform]
  show legacyForm.read = _
  rw [Document.StoryForm.read, hnodes, ok_bind, Table.ofEntries_entries]
  rfl

theorem written_legacyStory_reads_back :
    Schema.checker.KeepsStories ∧ ofDatum Schema.checker legacyDocument = .ok legacyStory ∧
    (∀ n ∈ legacyStory.numbers, n.isFinite = .ok true) ∧
    ∃ reread, ofDatum Schema.checker legacyStory.toDatum = .ok reread ∧ reread = legacyStory ∧
      ∀ allowCycles listed,
        reread.issues allowCycles listed = legacyStory.issues allowCycles listed := by
  have hkeeps := Schema.checker_keepsStories
  have hread := ofDatum_legacyDocument
  have hfinite : ∀ n ∈ legacyStory.numbers, n.isFinite = .ok true := by
    have hnumbers : legacyStory.numbers = [.int 2, .int (-1)] := by rfl
    have htwo : (Number.int 2).isFinite = .ok true := by decide +kernel
    have hone : (Number.int (-1)).isFinite = .ok true := by decide +kernel
    rw [hnumbers]
    simp only [List.forall_mem_cons]
    exact ⟨htwo, hone, List.forall_mem_nil _⟩
  exact ⟨hkeeps, hread, hfinite, written_story_reads_back hkeeps hread hfinite⟩

end Story

end Gamebook
