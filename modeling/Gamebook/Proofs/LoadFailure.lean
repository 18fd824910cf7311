import Gamebook.Proofs.Accepted
import Gamebook.Proofs.OutOfRange
import Gamebook.Proofs.SchemaLaws
import Gamebook.Proofs.Utf8

/-!
# How loading ends

A story that is loaded has no issues, and one that is not loaded is refused with an error of its
document or with its issues, whatever is loaded, unless the bytes are no UTF-8 or there is a number in
the document that is out of range (`Story.loading_ends`).  Both do occur (`Story.undeclared_failures`).

Of the checker it is relied on that it refuses what it does not keep, and passes on what stands for
conditions and effects.  So where a number in them is out of range, it is in the document.
-/

namespace Gamebook

open Numeral (LongRun)

/-- Somewhere in a datum a number can be out of range. -/
def Datum.Long (d : Datum) : Prop :=
  ∃ part : Datum, part.Within d ∧ part.Overlong

/-! ## Stories -/

/-- A document is refused as one, or a number in it is out of range and `P`. -/
def StoryError.RangeOnlyIf (P : Prop) : StoryError → Prop
  | .document _ => True
  | .range _ => P
  | .brokenOff _ => False

theorem StoryError.RangeOnlyIf.mono {P Q : Prop} (h : P → Q) :
    ∀ e, StoryError.RangeOnlyIf P e → StoryError.RangeOnlyIf Q e
  | .document _, _ => trivial
  | .range _, hP => h hP

namespace Document

open StoryError (RangeOnlyIf)

theorem gives_readCondition (place : String) (d : Datum) :
    Gives (readCondition place d) (fun _ => True) (RangeOnlyIf d.Overlong) := by
  cases d with
  | text s => exact Gives.mapError (Condition.scans_ofText s.toList) fun _ => id
  | object ms =>
    have hdatum := Condition.decodes_ofDatum (.object ms)
    unfold readCondition
    simp only
    split
    · trivial
    · trivial
    · next he =>
      rw [he] at hdatum
      exact hdatum
  | _ => trivial

theorem gives_readEffect (place : String) (d : Datum) :
    Gives (readEffect place d) (fun _ => True) (RangeOnlyIf d.Overlong) := by
  cases d with
  | text s => exact Gives.mapError (Effect.scans_ofText s.toList) fun _ => id
  | object ms =>
    have hdatum := Effect.decodes_ofDatum (.object ms)
    unfold readEffect
    simp only
    split
    · trivial
    · trivial
    · next he =>
      rw [he] at hdatum
      exact hdatum
  | _ => trivial

theorem gives_readEach {α β : Type} {read : String → α → Except StoryError β} {P : Prop}
    {as : List α} (h : ∀ a ∈ as, ∀ place, Gives (read place a) (fun _ => True) (RangeOnlyIf P))
    (place : String) (i : Nat) :
    Gives (readEach read place i as) (fun _ => True) (RangeOnlyIf P) := by
  induction as generalizing i with
  | nil => trivial
  | cons a as ih =>
    have hrest := ih (fun a ha => h a (List.mem_cons_of_mem _ ha)) (i + 1)
    exact (h a List.mem_cons_self _).bind fun b _ => hrest.bind fun bs _ => trivial

/-- A number can be out of range in one of several data. -/
def SomeOverlong (parts : List Datum) : Prop :=
  ∃ part ∈ parts, part.Overlong

theorem SomeOverlong.mono {parts parts' : List Datum} (h : parts ⊆ parts') :
    SomeOverlong parts → SomeOverlong parts' :=
  fun ⟨part, hpart, hlong⟩ => ⟨part, h hpart, hlong⟩

theorem gives_readChoice (place : String) (form : ChoiceForm) :
    Gives (readChoice place form) (fun _ => True) (RangeOnlyIf (SomeOverlong form.data)) := by
  have hconditions : ∀ d ∈ form.conditions, ∀ place,
      Gives (readCondition place d) (fun _ => True) (RangeOnlyIf (SomeOverlong form.data)) := by
    intro d hd place
    have hdata : d ∈ form.data := List.mem_append_left _ hd
    exact (gives_readCondition place d).mono (fun _ => id) (RangeOnlyIf.mono fun h => ⟨d, hdata, h⟩)
  have heffects : ∀ d ∈ form.effects, ∀ place,
      Gives (readEffect place d) (fun _ => True) (RangeOnlyIf (SomeOverlong form.data)) := by
    intro d hd place
    have hdata : d ∈ form.data := List.mem_append_right _ hd
    exact (gives_readEffect place d).mono (fun _ => id) (RangeOnlyIf.mono fun h => ⟨d, hdata, h⟩)
  exact (gives_readEach hconditions _ _).bind fun _ _ =>
    (gives_readEach heffects _ _).bind fun _ _ => trivial

theorem gives_readNode (key : String) (form : NodeForm) :
    Gives (readNode key form) (fun _ => True) (RangeOnlyIf (SomeOverlong form.data)) := by
  refine Gives.bind (gives_readEach (fun c hc place => ?_) _ _) fun _ _ => trivial
  exact (gives_readChoice place c).mono (fun _ => id)
    (RangeOnlyIf.mono (.mono fun part hpart => List.mem_flatMap.2 ⟨c, hc, hpart⟩))

theorem gives_readNodes (forms : List (String × NodeForm)) :
    Gives (readNodes forms) (fun _ => True)
      (RangeOnlyIf (SomeOverlong (forms.flatMap fun e => e.2.data))) := by
  induction forms with
  | nil => trivial
  | cons e forms ih =>
    rw [List.flatMap_cons]
    have hfirst := (gives_readNode e.1 e.2).mono (fun _ => id)
      (RangeOnlyIf.mono (SomeOverlong.mono
        (List.subset_append_left _ (forms.flatMap fun e => e.2.data))))
    have hrest := ih.mono (fun _ => id)
      (RangeOnlyIf.mono (SomeOverlong.mono (List.subset_append_right e.2.data _)))
    exact hfirst.bind fun _ _ => hrest.bind fun _ _ => trivial

theorem gives_read (form : StoryForm) :
    Gives form.read (fun _ => True) (RangeOnlyIf (SomeOverlong form.data)) :=
  (gives_readNodes form.nodes.entries).bind fun _ _ => trivial

end Document

namespace Story

variable {checker : Checker}

theorem gives_ofDatum (hpasses : checker.PassesOn) (hrefuses : checker.RefusesStories) (d : Datum) :
    Gives (ofDatum checker d) (fun _ => True) (StoryError.RangeOnlyIf d.Long) := by
  unfold ofDatum
  split
  · trivial
  · next h =>
    obtain ⟨_, hfaults⟩ := hrefuses _ _ h
    cases hfaults
  · next form hform =>
    refine (Document.gives_read form).mono (fun _ => id) (StoryError.RangeOnlyIf.mono ?_)
    rintro ⟨part, hpart, hlong⟩
    exact ⟨part, hpasses _ _ hform part hpart, hlong⟩

end Story

/-! ## Loading -/

/-- An error that loading is declared to end with, or another one and `P`. -/
def LoadError.DeclaredUnless (P : Prop) : LoadError → Prop
  | .document _ => True
  | .invalid issues => issues ≠ []
  | .notUtf8 _ => P
  | .range _ => P
  | .brokenOff _ => False

theorem LoadError.DeclaredUnless.mono {P Q : Prop} (h : P → Q) :
    ∀ e, LoadError.DeclaredUnless P e → LoadError.DeclaredUnless Q e
  | .document _, _ => trivial
  | .invalid _, hissues => hissues
  | .notUtf8 _, hP => h hP
  | .range _, hP => h hP

/-- A text in which a number can be out of range, or in the document that it is. -/
def LongDocument (cs : List Char) : Prop :=
  LongRun cs ∨ ∃ d, Datum.read cs = .ok d ∧ d.Long

namespace Story

variable {checker : Checker}

theorem gives_load (hpasses : checker.PassesOn) (hrefuses : checker.RefusesStories) (d : Datum)
    (allowCycles : Bool) (listed : List String) :
    Gives (load checker d allowCycles listed) (fun s => s.issues allowCycles listed = [])
      (LoadError.DeclaredUnless d.Long) := by
  have hdatum := gives_ofDatum hpasses hrefuses d
  unfold load
  split
  · next s hs =>
    unfold validated
    split
    · next hissues => exact hissues
    · next hissues => exact hissues
  · next e he =>
    rw [he] at hdatum
    cases e with
    | document e => trivial
    | range e => exact hdatum
    | brokenOff message => exact hdatum

theorem gives_loadText (hpasses : checker.PassesOn) (hrefuses : checker.RefusesStories)
    (cs : List Char) (allowCycles : Bool) :
    Gives (loadText checker cs allowCycles) (fun s => ∃ listed, s.issues allowCycles listed = [])
      (LoadError.DeclaredUnless (LongDocument cs)) := by
  have hread := Datum.gives_read cs
  unfold Datum.read at hread
  unfold loadText
  split
  · trivial
  · next e he =>
    rw [he] at hread
    exact .inl (hread e rfl)
  · next d hd =>
    have hsettled : Datum.read cs = .ok d.settle := by rw [Datum.read, hd, map_ok]
    have hlong : d.settle.Long → LongDocument cs := fun h => .inr ⟨d.settle, hsettled, h⟩
    exact (gives_load hpasses hrefuses d.settle allowCycles (notedKeys d)).mono (fun _ h => ⟨_, h⟩)
      (LoadError.DeclaredUnless.mono hlong)

/-- Loading ends with a story without issues, or is refused with an error of the document or with the
issues of the story, unless a number in it is out of range or bytes are those of no text. -/
theorem loading_ends (hpasses : checker.PassesOn) (hrefuses : checker.RefusesStories)
    (allowCycles : Bool) :
    (∀ d listed, Gives (load checker d allowCycles listed)
      (fun s => s.issues allowCycles listed = []) (LoadError.DeclaredUnless d.Long)) ∧
    (∀ cs, Gives (loadText checker cs allowCycles)
      (fun s => ∃ listed, s.issues allowCycles listed = [])
      (LoadError.DeclaredUnless (LongDocument cs))) ∧
    ∀ bytes, Gives (loadBytes checker bytes allowCycles)
      (fun s => ∃ listed, s.issues allowCycles listed = [])
      (LoadError.DeclaredUnless (∀ cs, bytes = Text.Utf8.encoded cs → LongDocument cs)) := by
  refine ⟨fun d listed => gives_load hpasses hrefuses d allowCycles listed,
    fun cs => gives_loadText hpasses hrefuses cs allowCycles, fun bytes => ?_⟩
  unfold loadBytes
  split
  · next fault hfault =>
    intro cs hcs
    rw [Text.Utf8.decode_eq_ok_iff.2 hcs] at hfault
    cases hfault
  · next cs hcs =>
    refine (gives_loadText hpasses hrefuses cs allowCycles).mono (fun _ => id)
      (LoadError.DeclaredUnless.mono ?_)
    intro hlong cs' hcs'
    rw [Text.Utf8.decode_eq_ok_iff.2 hcs'] at hcs
    cases hcs
    exact hlong

/-- A document that is no story. -/
def emptyDocument : Datum :=
  .object []

theorem loading_ends_empty : Schema.checker.PassesOn ∧ Schema.checker.RefusesStories ∧
    ∃ e, load Schema.checker emptyDocument true [] = .error e ∧ LoadError.DeclaredUnless False e := by
  have hshort : ¬ emptyDocument.Long := by
    rintro ⟨part, hpart, hlong⟩
    cases hpart with
    | here => cases hlong with | member hmember => cases hmember
    | member hmember => cases hmember
  have hends := (loading_ends Schema.checker_passesOn Schema.checker_refusesStories true).1
    emptyDocument []
  refine ⟨Schema.checker_passesOn, Schema.checker_refusesStories, ?_⟩
  cases hload : load Schema.checker emptyDocument true [] with
  | ok s => cases hload
  | error e =>
    rw [hload] at hends
    exact ⟨e, rfl, LoadError.DeclaredUnless.mono hshort e hends⟩

/-! ### Other failures -/

/-- A document with a test of a resource. -/
def testDocument (amount : Number) : Datum :=
  .object [("startNode", .text "hall"), ("nodes", .object [("hall", .object [("choices", .list [
    .object [("id", .text "wait"), ("conditions", .list [
      Condition.toDatum (.resourceIs "gold" .atLeast amount)])]])])])]

theorem load_testDocument {amount : Number} {error : RangeError}
    (h : amount.isFinite = .error error) (allowCycles : Bool) (listed : List String) :
    load Schema.checker (testDocument amount) allowCycles listed = .error (.range error) := by
  have hform : Schema.checker.story (testDocument amount) = .ok {
      kind := "", start := "hall", flags := ∅, resources := ∅
      nodes := Table.ofEntries [("hall", ⟨none, "", [⟨"wait", "", "",
        [Condition.toDatum (.resourceIs "gold" .atLeast amount)], [], none⟩]⟩)] } := by rfl
  have hkey : "gold" ≠ "" := by decide
  have hdatum := Condition.ofDatum_resourceIs hkey .atLeast h
  have hread : ∀ place, Document.readCondition place
      (Condition.toDatum (.resourceIs "gold" .atLeast amount)) = .error (.range error) := by
    intro place
    rw [Condition.toDatum] at hdatum ⊢
    simp only [Document.readCondition, hdatum]
  have hnodes : Document.readNodes [("hall", ⟨none, "", [⟨"wait", "", "",
      [Condition.toDatum (.resourceIs "gold" .atLeast amount)], [], none⟩]⟩)] =
      .error (.range error) := by
    simp only [Document.readNodes, Document.readNode, Document.readEach, Document.readChoice, hread]
    rfl
  have hstory : ofDatum Schema.checker (testDocument amount) = .error (.range error) := by
    unfold ofDatum
    rw [hform]
    exact congrArg (· >>= _) hnodes
  unfold load
  rw [hstory]
  rfl

theorem undeclared_failures :
    loadBytes Schema.checker [0xFF] true = .error (.notUtf8 ⟨.startByte, 0, 0xFF, 1⟩) ∧
    load Schema.checker (testDocument (.int (10 ^ 400))) true [] = .error (.range .tooLarge) :=
  ⟨rfl, load_testDocument (Number.isFinite_ten_pow (Nat.le_refl 400)) true []⟩

end Story

end Gamebook
