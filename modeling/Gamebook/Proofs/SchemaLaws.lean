import Gamebook.Schema
import Gamebook.Proofs.Fallible
import Gamebook.Proofs.Overflow
import Gamebook.Proofs.Typed
import Gamebook.Proofs.Written

/-!
# The laws of schemas

The checker that goes by schemas obeys the laws that are relied on (`Schema.checker_keepsStories`,
`Schema.checker_keepsSessions`, `Schema.checker_passesOn`, `Schema.checker_refusesStories`).

Checks are put together from checks, and so are the laws.  A check keeps a type if it gives what the
datum is (`Schema.Keeps`), and copies data if what it gives has them from the datum (`Schema.Copies`).
-/

namespace Gamebook

/-! ## Tables -/

namespace Table

variable {α : Type}

theorem entries_putAll (t : Table α) (es : List (String × α)) :
    (t.putAll es).entries = es.foldl (fun acc e => putEntry e.1 e.2 acc) t.entries := by
  induction es generalizing t with
  | nil => rfl
  | cons e es ih => exact ih (t.put e.1 e.2)

theorem map_id (t : Table α) : t.map id = t :=
  eq_of_entries (List.map_id _)

theorem entries_ofEntries {es : List (String × α)} (h : (es.map Prod.fst).Nodup) :
    (ofEntries es).entries = es :=
  (entries_putAll empty es).trans (Datum.mergeEntries_of_nodup h)

/-- A table is the table of its entries. -/
theorem ofEntries_entries (t : Table α) : ofEntries t.entries = t :=
  eq_of_entries (entries_ofEntries t.nodup)

theorem mem_of_mem_ofEntries {es : List (String × α)} {e : String × α}
    (h : e ∈ (ofEntries es).entries) : e ∈ es := by
  rw [ofEntries, entries_putAll] at h
  exact Datum.mem_of_mem_mergeEntries h

end Table

/-! ## Checks -/

namespace Checked

variable {α β γ : Type}

theorem both_eq_ok {x : Checked α} {y : Checked β} {r : α × β} (h : both x y = .ok r) :
    x = .ok r.1 ∧ y = .ok r.2 := by
  unfold both at h
  split at h
  · cases h
    exact ⟨rfl, rfl⟩
  · cases h
  · cases h
  · cases h

theorem inside_eq_ok {segment : String} {x : Checked α} {a : α} (h : inside segment x = .ok a) :
    x = .ok a := by
  cases x with
  | ok b => exact h
  | error fs => cases h

theorem each_of_forall₂ {check : β → Checked γ} {segment : β → String} {bs : List β} {cs : List γ}
    (h : List.Forall₂ (fun b c => check b = .ok c) bs cs) : each check segment bs = .ok cs := by
  induction h with
  | nil => rfl
  | cons hfirst _ ih =>
    rw [each, hfirst, ih]
    rfl

theorem exists_of_mem_each {check : β → Checked γ} {segment : β → String} {bs : List β}
    {cs : List γ} (h : each check segment bs = .ok cs) : ∀ c ∈ cs, ∃ b ∈ bs, check b = .ok c := by
  induction bs generalizing cs with
  | nil =>
    cases h
    exact List.forall_mem_nil _
  | cons b bs ih =>
    obtain ⟨⟨c, cs⟩, hboth, rfl⟩ := map_eq_ok_iff.1 h
    obtain ⟨hfirst, hrest⟩ := both_eq_ok hboth
    refine List.forall_mem_cons.2 ⟨⟨b, List.mem_cons_self, inside_eq_ok hfirst⟩, fun c' hc' => ?_⟩
    obtain ⟨b', hb', hcheck⟩ := ih hrest c' hc'
    exact ⟨b', List.mem_cons_of_mem _ hb', hcheck⟩

end Checked

namespace Schema

open Checked Document

variable {α : Type} {check : Datum → Checked α}

/-- The field of a schema is found under the names of the field. -/
theorem find?_eq (names : List String) (ms : Members) :
    (find? names ms).map Prod.snd = names.findSome? fun name => Datum.member? name ms := by
  unfold find?
  induction names with
  | nil => rfl
  | cons name names ih =>
    rw [List.findSome?_cons, List.findSome?_cons]
    cases Datum.member? name ms with
    | none => exact ih
    | some d => rfl

/-! ## Values that are kept -/

section

variable {Is : Datum → α → Prop}

/-- A check keeps data of a type as what they are. -/
def Keeps (check : Datum → Checked α) (Is : Datum → α → Prop) : Prop :=
  ∀ ⦃d a⦄, Is d a → check d = .ok a

theorem keeps_text : Keeps text IsText := by
  rintro _ s rfl
  rfl

theorem keeps_truth : Keeps truth IsTruth := by
  rintro _ b rfl
  rfl

theorem keeps_number : Keeps number IsNumber := by
  rintro _ n rfl
  rfl

theorem keeps_integer : Keeps integer IsInteger := by
  rintro _ n rfl
  rfl

theorem keeps_scalar : Keeps scalar IsScalar := by
  rintro _ x rfl
  cases x <;> rfl

theorem keeps_objectOrText : Keeps objectOrText IsObjectOrText := by
  rintro d _ ⟨rfl, ⟨ms, rfl⟩ | ⟨s, rfl⟩⟩
  · rfl
  · rfl

theorem Keeps.nullAs {value : α} (h : Keeps check Is) :
    Keeps (nullAs value check) (OrNull value Is) := by
  rintro d a (_ | ⟨hd, ha⟩)
  · rfl
  · cases d with
    | null => exact absurd rfl hd
    | _ => exact h ha

theorem Keeps.optional (h : Keeps check Is) :
    Keeps (Schema.nullAs none fun d => (check d).map some) (IsOptional Is) := by
  refine Keeps.nullAs ?_
  rintro d _ ⟨a, rfl, ha⟩
  show (check d).map some = _
  rw [h ha, map_ok]

theorem Keeps.list (h : Keeps check Is) : Keeps (list check) (IsList Is) := by
  rintro _ as ⟨items, rfl, hitems⟩
  -- positions are for faults only
  have key : ∀ n, List.Forall₂ (fun (i : Datum × Nat) a => check i.1 = .ok a) (items.zipIdx n) as := by
    induction hitems with
    | nil => exact fun n => .nil
    | cons hfirst _ ih => exact fun n => .cons (h hfirst) (ih (n + 1))
  exact each_of_forall₂ (key 0)

theorem Keeps.table (h : Keeps check Is) : Keeps (table check) (IsTable Is) := by
  rintro _ t ⟨ms, rfl, hms⟩
  have hentries : each (fun m : String × Datum => (check m.2).map (m.1, ·)) Prod.fst ms =
      .ok t.entries := by
    refine each_of_forall₂ (hms.imp ?_)
    rintro ⟨name, d⟩ ⟨_, a⟩ ⟨rfl, ha⟩
    exact map_eq_ok_iff.2 ⟨a, h ha, rfl⟩
  show (each _ _ ms).map Table.ofEntries = _
  rw [hentries, map_ok, t.ofEntries_entries]

theorem Keeps.document {title : String} {check : Members → Checked α}
    {Is : List (String × Datum) → α → Prop} (h : ∀ ms a, Is ms a → check ms = .ok a) :
    Keeps (document title check) (IsObject Is) := by
  rintro _ a ⟨ms, rfl, ha⟩
  exact h ms a ha

variable {name : String} {others : List String} {ms : Members} {a default : α}

theorem Keeps.required_eq (h : Keeps check Is) (ha : HasField (name :: others) none Is ms a) :
    required name others check ms = .ok a := by
  unfold HasField at ha
  rw [← find?_eq] at ha
  unfold required
  cases hfind : find? (name :: others) ms with
  | none =>
    rw [hfind] at ha
    cases ha
  | some found =>
    rw [hfind] at ha
    show inside found.1 (check found.2) = _
    rw [h ha]
    rfl

theorem Keeps.optional_eq (h : Keeps check Is)
    (ha : HasField (name :: others) (some default) Is ms a) :
    Schema.optional name others default check ms = .ok a := by
  unfold HasField at ha
  rw [← find?_eq] at ha
  unfold Schema.optional
  cases hfind : find? (name :: others) ms with
  | none =>
    rw [hfind] at ha
    exact congrArg Except.ok (Option.some.inj ha)
  | some found =>
    rw [hfind] at ha
    show inside found.1 (check found.2) = _
    rw [h ha]
    rfl

end

theorem keeps_outcome : Keeps outcome (IsObject IsOutcome) := by
  refine Keeps.document fun ms o h => ?_
  rw [keeps_text.required_eq h.type, keeps_text.optional.optional_eq h.value]
  rfl

theorem keeps_choice : Keeps choice (IsObject IsChoice) := by
  refine Keeps.document fun ms c h => ?_
  rw [keeps_text.required_eq h.id, keeps_text.nullAs.optional_eq h.text,
    keeps_text.nullAs.optional_eq h.target, keeps_objectOrText.list.nullAs.optional_eq h.conditions,
    keeps_objectOrText.list.nullAs.optional_eq h.effects,
    keeps_outcome.optional.optional_eq h.outcome]
  rfl

theorem keeps_node : Keeps node (IsObject IsNode) := by
  refine Keeps.document fun ms n h => ?_
  rw [keeps_text.optional.optional_eq h.id, keeps_text.nullAs.optional_eq h.text,
    keeps_choice.list.nullAs.optional_eq h.choices]
  rfl

theorem keeps_story : Keeps story (IsObject IsStory) := by
  refine Keeps.document fun ms s h => ?_
  rw [keeps_text.optional_eq h.kind, keeps_text.required_eq h.start,
    keeps_truth.table.nullAs.optional_eq h.flags, keeps_number.table.nullAs.optional_eq h.resources,
    keeps_node.table.required_eq h.nodes]
  rfl

theorem keeps_session : Keeps session (IsObject IsSession) := by
  refine Keeps.document fun ms s h => ?_
  rw [keeps_text.required_eq h.node, keeps_truth.table.optional_eq h.flags,
    keeps_number.table.optional_eq h.resources, keeps_scalar.table.optional_eq h.vars,
    keeps_integer.optional_eq h.time]
  rfl

/-! ## Data that are passed on -/

section

variable {data : α → List Datum}

/-- The data that are had from what a check gives stand in the datum. -/
def Copies (check : Datum → Checked α) (data : α → List Datum) : Prop :=
  ∀ ⦃d a⦄, check d = .ok a → ∀ part ∈ data a, part.Within d

theorem copies_objectOrText : Copies objectOrText fun d => [d] := by
  intro d a h
  cases d with
  | object ms =>
    cases h
    exact List.forall_mem_singleton.2 .here
  | text s =>
    cases h
    exact List.forall_mem_singleton.2 .here
  | _ => cases h

theorem Copies.list (h : Copies check data) : Copies (list check) fun as => as.flatMap data := by
  intro d as has part hpart
  obtain ⟨a, ha, hpart⟩ := List.mem_flatMap.1 hpart
  cases d with
  | list items =>
    obtain ⟨i, hi, hcheck⟩ := exists_of_mem_each has a ha
    exact .item (List.fst_mem_of_mem_zipIdx hi) (h hcheck part hpart)
  | _ => cases has

theorem Copies.table (h : Copies check data) :
    Copies (table check) fun t => t.entries.flatMap fun e => data e.2 := by
  intro d t ht part hpart
  obtain ⟨e, he, hpart⟩ := List.mem_flatMap.1 hpart
  cases d with
  | object ms =>
    obtain ⟨es, hes, rfl⟩ := map_eq_ok_iff.1 ht
    obtain ⟨m, hm, hcheck⟩ := exists_of_mem_each hes e (Table.mem_of_mem_ofEntries he)
    obtain ⟨a, ha, rfl⟩ := map_eq_ok_iff.1 hcheck
    exact .member hm (h ha part hpart)
  | _ => cases ht

theorem Copies.nullAs {value : α} (hvalue : data value = []) (h : Copies check data) :
    Copies (nullAs value check) data := by
  intro d a ha part hpart
  cases d with
  | null =>
    cases ha
    rw [hvalue] at hpart
    cases hpart
  | _ => exact h ha part hpart

theorem mem_of_find? {names : List String} {ms : Members} {m : String × Datum}
    (h : find? names ms = some m) : m ∈ ms := by
  obtain ⟨name, -, hname⟩ := List.exists_of_findSome?_eq_some h
  obtain ⟨d, hd, rfl⟩ := Option.map_eq_some_iff.1 hname
  exact Tagged.mem_of_member? hd

variable {name : String} {others : List String} {ms : Members} {a default : α}

theorem Copies.required (h : Copies check data) (ha : required name others check ms = .ok a) :
    ∀ part ∈ data a, part.Within (.object ms) := by
  intro part hpart
  unfold Schema.required at ha
  split at ha
  · next hfind => exact .member (mem_of_find? hfind) (h (inside_eq_ok ha) part hpart)
  · cases ha

theorem Copies.optional (h : Copies check data) (hdefault : data default = [])
    (ha : Schema.optional name others default check ms = .ok a) :
    ∀ part ∈ data a, part.Within (.object ms) := by
  intro part hpart
  unfold Schema.optional at ha
  split at ha
  · next hfind => exact .member (mem_of_find? hfind) (h (inside_eq_ok ha) part hpart)
  · cases ha
    rw [hdefault] at hpart
    cases hpart

end

theorem copies_choice : Copies choice ChoiceForm.data := by
  have hlist : Copies (nullAs [] (list objectOrText)) fun ds => ds.flatMap fun d => [d] :=
    copies_objectOrText.list.nullAs rfl
  intro d form h part hpart
  cases d with
  | object ms =>
    obtain ⟨⟨id, text, target, conditions, effects, outcome⟩, hfields, rfl⟩ := map_eq_ok_iff.1 h
    obtain ⟨-, hfields⟩ := both_eq_ok hfields
    obtain ⟨-, hfields⟩ := both_eq_ok hfields
    obtain ⟨-, hfields⟩ := both_eq_ok hfields
    obtain ⟨hconditions, hfields⟩ := both_eq_ok hfields
    obtain ⟨heffects, -⟩ := both_eq_ok hfields
    rcases List.mem_append.1 hpart with hpart | hpart
    · exact hlist.optional rfl hconditions part (List.mem_flatMap.2 ⟨part, hpart, List.mem_cons_self⟩)
    · exact hlist.optional rfl heffects part (List.mem_flatMap.2 ⟨part, hpart, List.mem_cons_self⟩)
  | _ => cases h

theorem copies_node : Copies node NodeForm.data := by
  have hlist : Copies (nullAs [] (list choice)) fun cs => cs.flatMap ChoiceForm.data :=
    copies_choice.list.nullAs rfl
  intro d form h part hpart
  cases d with
  | object ms =>
    obtain ⟨⟨id, text, choices⟩, hfields, rfl⟩ := map_eq_ok_iff.1 h
    obtain ⟨-, hfields⟩ := both_eq_ok hfields
    obtain ⟨-, hchoices⟩ := both_eq_ok hfields
    exact hlist.optional rfl hchoices part hpart
  | _ => cases h

theorem copies_story : Copies story StoryForm.data := by
  intro d form h part hpart
  cases d with
  | object ms =>
    obtain ⟨⟨kind, start, flags, resources, nodes⟩, hfields, rfl⟩ := map_eq_ok_iff.1 h
    obtain ⟨-, hfields⟩ := both_eq_ok hfields
    obtain ⟨-, hfields⟩ := both_eq_ok hfields
    obtain ⟨-, hfields⟩ := both_eq_ok hfields
    obtain ⟨-, hnodes⟩ := both_eq_ok hfields
    exact copies_node.table.required hnodes part hpart
  | _ => cases h

/-! ## The checker -/

theorem checker_keepsStories : checker.KeepsStories := by
  intro d form h
  show (story d).mapError CheckError.faults = _
  rw [keeps_story h]
  rfl

theorem checker_keepsSessions : checker.KeepsSessions := by
  intro d form h
  show (session d).mapError CheckError.faults = _
  rw [keeps_session h]
  rfl

theorem checker_passesOn : checker.PassesOn :=
  fun _ _ h => copies_story (mapError_eq_ok h)

theorem checker_refusesStories : checker.RefusesStories := by
  intro d e h
  replace h : (story d).mapError CheckError.faults = .error e := h
  cases hstory : story d with
  | ok form =>
    rw [hstory] at h
    cases h
  | error faults =>
    rw [hstory] at h
    cases h
    exact ⟨faults, rfl⟩

end Schema

end Gamebook
