import Gamebook.Proofs.Agreement
import Gamebook.Proofs.ConditionText

/-!
# How effects are written

An effect is written as its JSON object or as a shorthand, which is tried first (`Effect.Spells`): it is
chosen if it is read as what agrees with the effect (`Effect.rendered_of_renderChars`).  The shorthand of
an effect with members joins the texts of the members without quoting them, so that bars and question
marks in them may cut it elsewhere, and any text in it may come to stand for a member of its own.  So
nothing is known of what it is read as but that it has been compared.

The trial fails where such a text describes an object with a number out of range (`Effect.Unreadable`).
Without members there is no such text, and the trial succeeds (`Effect.exists_ofText_shorthand?`).  So
an effect whose numbers can be written has a text, or the shorthand of an effect with members in it
cannot be read (`Effect.rendered_or_unreadable`).
-/

namespace Gamebook.Effect

open Text (stripEnd joinWith)
open Condition (Opens cutAssignment?)

/-! ## Shorthand without members -/

/-- Behind the beginning of a form blanks are trimmed at the end only. -/
theorem ofText_append {beginning : List Char} {first last : Char} (h : Opens beginning first last)
    (body : List Char) :
    ofText (beginning ++ body) = (ofStripped (beginning ++ stripEnd body)).map some := by
  unfold ofText
  rw [h.strip_append]
  have hne : (beginning ++ stripEnd body).isEmpty = false := by
    obtain ⟨cs, rfl⟩ := List.head?_eq_some_iff.1 h.head
    rfl
  simp only [hne, Bool.false_eq_true, ↓reduceIte]

theorem ofText_append_of_simple {beginning : List Char} {first last : Char}
    (h : Opens beginning first last) {body : List Char}
    (hform : Form.ofText (beginning ++ stripEnd body) = .simple) :
    ofText (beginning ++ body) = (ofShorthand? (beginning ++ stripEnd body)).map fun r =>
      some (r.getD (.verbatim (String.ofList (beginning ++ stripEnd body)))) := by
  rw [ofText_append h, ofStripped_simple hform]
  cases ofShorthand? (beginning ++ stripEnd body) <;> rfl

theorem opens_setFlag : Opens "setFlag:".toList 's' ':' :=
  ⟨rfl, rfl, by decide, by decide, by decide⟩

theorem opens_addResource : Opens "addResource:".toList 'a' ':' :=
  ⟨rfl, rfl, by decide, by decide, by decide⟩

theorem opens_setVariable : Opens "setVariable:".toList 's' ':' :=
  ⟨rfl, rfl, by decide, by decide, by decide⟩

theorem opens_goto : Opens "goto:".toList 'g' ':' :=
  ⟨rfl, rfl, by decide, by decide, by decide⟩

theorem opens_random : Opens "randomEffect:".toList 'r' ':' :=
  ⟨rfl, rfl, by decide, by decide, by decide⟩

theorem opens_conditional : Opens "conditionalEffect:".toList 'c' ':' :=
  ⟨rfl, rfl, by decide, by decide, by decide⟩

theorem ofShorthand?_setFlag (cs : List Char) :
    ofShorthand? ("setFlag:".toList ++ cs) = .ok (ofSetFlag? cs) := by
  unfold ofShorthand? forms
  rw [Condition.findSomeM?_of_rest]
  · rfl
  · simp only [List.forall_mem_cons]
    exact ⟨rfl, rfl, rfl, List.forall_mem_nil _⟩

theorem ofShorthand?_addResource (cs : List Char) :
    ofShorthand? ("addResource:".toList ++ cs) = ofAddResource? cs := by
  unfold ofShorthand? forms
  rw [Condition.findSomeM?_skip _ (by rfl), Condition.findSomeM?_of_rest]
  · rfl
  · simp only [List.forall_mem_cons]
    exact ⟨rfl, rfl, List.forall_mem_nil _⟩

theorem ofShorthand?_setVariable (cs : List Char) :
    ofShorthand? ("setVariable:".toList ++ cs) = .ok (ofSetVariable? cs) := by
  unfold ofShorthand? forms
  rw [Condition.findSomeM?_skip _ (by rfl), Condition.findSomeM?_skip _ (by rfl),
    Condition.findSomeM?_of_rest]
  · rfl
  · simp only [List.forall_mem_cons]
    exact ⟨rfl, List.forall_mem_nil _⟩

theorem ofShorthand?_goto (cs : List Char) :
    ofShorthand? ("goto:".toList ++ cs) = .ok (ofGoto? cs) := by
  unfold ofShorthand? forms
  rw [Condition.findSomeM?_skip _ (by rfl), Condition.findSomeM?_skip _ (by rfl),
    Condition.findSomeM?_skip _ (by rfl), Condition.findSomeM?_of_rest]
  · rfl
  · exact List.forall_mem_nil _

theorem exists_ofText_setFlag (body : List Char) :
    ∃ r, ofText ("setFlag:".toList ++ body) = .ok r := by
  rw [ofText_append_of_simple opens_setFlag rfl, ofShorthand?_setFlag]
  exact ⟨_, rfl⟩

theorem exists_ofText_setVariable (body : List Char) :
    ∃ r, ofText ("setVariable:".toList ++ body) = .ok r := by
  rw [ofText_append_of_simple opens_setVariable rfl, ofShorthand?_setVariable]
  exact ⟨_, rfl⟩

theorem exists_ofText_goto (body : List Char) :
    ∃ r, ofText ("goto:".toList ++ body) = .ok r := by
  rw [ofText_append_of_simple opens_goto rfl, ofShorthand?_goto]
  exact ⟨_, rfl⟩

/-- What is read as the number of a shorthand is its plain text: where a key has an equals sign in it,
what follows the first of them is no number. -/
theorem eq_plainText_of_cutAssignment? {key line : List Char} {delta : Number} {key' : String}
    {parts : Number.Parts}
    (hassign : cutAssignment? (key ++ '=' :: delta.plainText) = some (key', line))
    (hparts : Number.Parts.ofPlain? line = some parts) : line = delta.plainText := by
  obtain ⟨front, hcut⟩ := Condition.exists_cutAt?_of_cutAssignment? hassign
  have hkey : '=' ∉ key := by
    intro hmem
    obtain ⟨x, y, hsplit, hx⟩ := List.eq_append_cons_of_mem hmem
    rw [hsplit, List.append_assoc, List.cons_append, Text.cutAt?_append hx] at hcut
    cases hcut
    have hbehind : '=' ∈ y ++ '=' :: delta.plainText :=
      List.mem_append_right _ List.mem_cons_self
    have hchars := Number.of_mem_of_ofPlain? hparts _ hbehind
    revert hchars
    decide
  rw [Text.cutAt?_append hkey] at hcut
  cases hcut
  rfl

theorem exists_ofAddResource?_eq (key : List Char) {delta : Number}
    (h : delta.isFinite = .ok true) :
    ∃ r, ofAddResource? (key ++ '=' :: delta.plainText) = .ok r := by
  unfold ofAddResource?
  split
  · exact ⟨_, rfl⟩
  · next line hassign =>
    split
    · exact ⟨_, rfl⟩
    · next parts hparts =>
      rw [eq_plainText_of_cutAssignment? hassign hparts] at hparts
      obtain ⟨n, hn⟩ := Number.toNumber_ofPlain? h hparts
      rw [hn]
      exact ⟨_, rfl⟩

theorem ofText_addResource (key : List Char) {delta : Number} (h : delta.isFinite = .ok true) :
    ofText ("addResource:".toList ++ (key ++ '=' :: delta.plainText)) =
      (ofAddResource? (key ++ '=' :: delta.plainText)).map fun r => some (r.getD
        (.verbatim (String.ofList ("addResource:".toList ++ (key ++ '=' :: delta.plainText))))) := by
  have hstrip : stripEnd (key ++ '=' :: delta.plainText) = key ++ '=' :: delta.plainText := by
    refine Text.stripEnd_append_of_forall _ (List.cons_ne_nil _ _) ?_
    refine List.forall_mem_cons.2 ⟨by decide, fun c hc => ?_⟩
    exact Number.isBlank_of_isNumeralChar (Number.isNumeralChar_of_mem_plainText h hc)
  rw [ofText_append_of_simple opens_addResource rfl, hstrip, ofShorthand?_addResource]

theorem exists_ofText_addResource (key : List Char) {delta : Number}
    (h : delta.isFinite = .ok true) :
    ∃ r, ofText ("addResource:".toList ++ (key ++ '=' :: delta.plainText)) = .ok r := by
  rw [ofText_addResource key h]
  exact Condition.exists_map_eq _ (exists_ofAddResource?_eq key h)

/-- The shorthand of an effect that has one and has no members. -/
def shorthand? : Effect → Option (List Char)
  | .setFlag key value =>
    some ("setFlag:".toList ++ key.toList ++ '=' :: Condition.truthWord value)
  | .addResource key delta => some ("addResource:".toList ++ key.toList ++ '=' :: delta.plainText)
  | .setVariable key value =>
    some ("setVariable:".toList ++ key.toList ++ '=' :: value.toDatum.plain)
  | .goto target => some ("goto:".toList ++ target.toList)
  | _ => none

/-- A shorthand is a form with something behind its beginning, in which there is no bar. -/
theorem exists_opens_of_shorthand? {e : Effect} {s : List Char} (h : e.shorthand? = some s) :
    ∃ beginning first last body, s = beginning ++ body ∧ Opens beginning first last ∧
      '|' ∉ beginning ∧ ∀ rest, Form.ofText (beginning ++ rest) = .simple := by
  cases e with
  | setFlag key value =>
    obtain rfl := Option.some.inj h
    exact ⟨_, _, _, _, List.append_assoc _ _ _, opens_setFlag, by decide, fun _ => rfl⟩
  | addResource key delta =>
    obtain rfl := Option.some.inj h
    exact ⟨_, _, _, _, List.append_assoc _ _ _, opens_addResource, by decide, fun _ => rfl⟩
  | setVariable key value =>
    obtain rfl := Option.some.inj h
    exact ⟨_, _, _, _, List.append_assoc _ _ _, opens_setVariable, by decide, fun _ => rfl⟩
  | goto target =>
    obtain rfl := Option.some.inj h
    exact ⟨_, _, _, _, rfl, opens_goto, by decide, fun _ => rfl⟩
  | _ => cases h

/-- Reading back a shorthand of an effect without members does not fail. -/
theorem exists_ofText_shorthand? {e : Effect} {s : List Char} (h : e.WellFormed)
    (hs : e.shorthand? = some s) : ∃ r, ofText s = .ok r := by
  cases h with
  | setFlag =>
    obtain rfl := Option.some.inj hs
    rw [List.append_assoc]
    exact exists_ofText_setFlag _
  | addResource _ hdelta =>
    obtain rfl := Option.some.inj hs
    rw [List.append_assoc]
    exact exists_ofText_addResource _ hdelta
  | setVariable =>
    obtain rfl := Option.some.inj hs
    rw [List.append_assoc]
    exact exists_ofText_setVariable _
  | goto =>
    obtain rfl := Option.some.inj hs
    exact exists_ofText_goto _
  | _ => cases hs

/-! ## How the text is chosen -/

theorem renderChars_oneOf (e : Effect) (es : List Effect) :
    (Effect.oneOf (e :: es)).renderChars = renderEach (e :: es) >>= fun texts =>
      shorthandOrObject ("randomEffect:".toList ++ joinWith ['|'] texts) (.oneOf (e :: es)) := by
  rw [renderChars, renderEach]
  cases e.renderChars with
  | error error => rfl
  | ok text =>
    rw [ok_bind, ok_bind]
    cases renderEach es <;> rfl

/-- The shorthand that is tried for an effect. -/
inductive Spells : Effect → List Char → Prop where
  | simple {e : Effect} {s : List Char} (h : e.shorthand? = some s) : Spells e s
  | random {members : List Effect} {texts : List (List Char)} (hmembers : members ≠ [])
      (htexts : renderEach members = .ok texts) :
    Spells (.oneOf members) ("randomEffect:".toList ++ joinWith ['|'] texts)
  | conditional {condition : Condition} {member : Effect} {text parts : List Char}
      (htext : condition.renderChars = .ok text) (hparts : member.renderChars = .ok parts) :
    Spells (.provided condition member) ("conditionalEffect:".toList ++ text ++ '?' :: parts)

theorem Spells.renderChars_eq {e : Effect} {s : List Char} (h : e.Spells s) :
    e.renderChars = shorthandOrObject s e := by
  cases h with
  | simple h =>
    cases e with
    | setFlag key value => obtain rfl := Option.some.inj h; rw [renderChars]
    | addResource key delta => obtain rfl := Option.some.inj h; rw [renderChars]
    | setVariable key value => obtain rfl := Option.some.inj h; rw [renderChars]
    | goto target => obtain rfl := Option.some.inj h; rw [renderChars]
    | _ => cases h
  | @random members texts hmembers htexts =>
    cases members with
    | nil => exact absurd rfl hmembers
    | cons e es => rw [renderChars_oneOf, htexts, ok_bind]
  | conditional htext hparts => rw [renderChars, htext, ok_bind, hparts, ok_bind]

theorem Spells.ne_verbatim {e : Effect} {s : List Char} (h : e.Spells s) (t : String) :
    e ≠ .verbatim t := by
  rintro rfl
  cases h with
  | simple h => cases h

/-- How the text of an effect is chosen. -/
inductive Rendered : Effect → List Char → Prop where
  | verbatim {text : String} : Rendered (.verbatim text) text.toList
  | object {e : Effect} (hverbatim : ∀ s, e ≠ .verbatim s)
      (hshort : e.toDatum.hasTooLong = false) : Rendered e e.toDatum.compact
  | shorthand {e f : Effect} {s : List Char} (hshort : e.toDatum.hasTooLong = false)
      (hs : e.Spells s) (hread : ofText s = .ok (some f)) (hagrees : f.agrees e = true) :
    Rendered e s

theorem Spells.rendered {e : Effect} {s t : List Char} (hs : e.Spells s)
    (h : e.renderChars = .ok t) : e.Rendered t := by
  rw [hs.renderChars_eq, shorthandOrObject] at h
  obtain ⟨object, hliteral, h⟩ := bind_eq_ok_iff.1 h
  obtain ⟨hshort, rfl⟩ := Datum.literal_eq_ok hliteral
  obtain ⟨r, hr, h⟩ := bind_eq_ok_iff.1 h
  split at h
  · next f =>
    split at h
    · next hagrees =>
      cases h
      exact .shorthand hshort hs hr hagrees
    · cases h
      exact .object hs.ne_verbatim hshort
  · cases h
    exact .object hs.ne_verbatim hshort

theorem rendered_of_renderChars {e : Effect} {s : List Char} (h : e.renderChars = .ok s) :
    e.Rendered s := by
  have literal : ∀ {e : Effect}, (∀ s, e ≠ .verbatim s) → e.toDatum.literal = .ok s →
      e.Rendered s := by
    intro e hverbatim hliteral
    obtain ⟨hshort, rfl⟩ := Datum.literal_eq_ok hliteral
    exact .object hverbatim hshort
  cases e with
  | verbatim text =>
    rw [renderChars] at h
    cases h
    exact .verbatim
  | setFlag key value => exact (Spells.simple rfl).rendered h
  | addResource key delta => exact (Spells.simple rfl).rendered h
  | setVariable key value => exact (Spells.simple rfl).rendered h
  | goto target => exact (Spells.simple rfl).rendered h
  | multiplyResource key factor =>
    rw [renderChars] at h
    exact literal (fun _ => Effect.noConfusion) h
  | setResource key value =>
    rw [renderChars] at h
    exact literal (fun _ => Effect.noConfusion) h
  | oneOf members =>
    cases members with
    | nil =>
      rw [renderChars] at h
      exact literal (fun _ => Effect.noConfusion) h
    | cons e es =>
      have hrender := h
      rw [renderChars_oneOf] at h
      obtain ⟨texts, htexts, -⟩ := bind_eq_ok_iff.1 h
      exact (Spells.random (List.cons_ne_nil _ _) htexts).rendered hrender
  | provided condition member =>
    have hrender := h
    rw [renderChars] at h
    obtain ⟨text, htext, h⟩ := bind_eq_ok_iff.1 h
    obtain ⟨parts, hparts, -⟩ := bind_eq_ok_iff.1 h
    exact (Spells.conditional htext hparts).rendered hrender

/-- A shorthand that is read as what agrees with the effect is its text. -/
theorem Spells.renderChars_eq_ok {e f : Effect} {s : List Char} (hs : e.Spells s)
    (hshort : e.toDatum.hasTooLong = false) (hread : ofText s = .ok (some f))
    (hagrees : f.agrees e = true) : e.renderChars = .ok s := by
  rw [hs.renderChars_eq, shorthandOrObject, Datum.literal_of_short hshort, ok_bind,
    hread, ok_bind]
  simp only [hagrees, ↓reduceIte, pure_eq_ok]

theorem short_of_renderChars {e : Effect} {s : List Char} (h : e.renderChars = .ok s) :
    e.toDatum.hasTooLong = false := by
  cases rendered_of_renderChars h with
  | verbatim => rfl
  | object _ hshort => exact hshort
  | shorthand hshort => exact hshort

/-! ## Where there is no text -/

/-- The shorthand of an effect with members, which is read back when the effect, or one around it, is
written. -/
inductive Tried : Effect → List Char → Prop where
  | random {members : List Effect} {texts : List (List Char)} (hmembers : members ≠ [])
      (htexts : renderEach members = .ok texts) :
    Tried (.oneOf members) ("randomEffect:".toList ++ joinWith ['|'] texts)
  | conditional {condition : Condition} {member : Effect} {text parts : List Char}
      (htext : condition.renderChars = .ok text) (hparts : member.renderChars = .ok parts) :
    Tried (.provided condition member) ("conditionalEffect:".toList ++ text ++ '?' :: parts)
  | ofMember {members : List Effect} {e : Effect} {text : List Char} (he : e ∈ members)
      (h : Tried e text) : Tried (.oneOf members) text
  | ofProvided {condition : Condition} {member : Effect} {text : List Char} (h : Tried member text) :
    Tried (.provided condition member) text

/-- A shorthand that is tried for an effect cannot be read. -/
def Unreadable (e : Effect) (error : RangeError) : Prop :=
  ∃ text, e.Tried text ∧ ofText text = .error error

/-- The texts of several effects fail with one of them. -/
theorem renderEach_cases {es : List Effect}
    (h : ∀ e ∈ es, (∃ text, e.renderChars = .ok text) ∨
      ∃ error, e.renderChars = .error error ∧ Unreadable e error) :
    (∃ texts, renderEach es = .ok texts) ∨
      ∃ error, renderEach es = .error error ∧ ∃ e ∈ es, Unreadable e error := by
  induction es with
  | nil => exact .inl ⟨[], rfl⟩
  | cons e es ih =>
    rw [renderEach]
    rcases h e List.mem_cons_self with ⟨text, htext⟩ | ⟨error, herror, hunreadable⟩
    · rw [htext, ok_bind]
      rcases ih fun e he => h e (List.mem_cons_of_mem _ he) with
        ⟨texts, htexts⟩ | ⟨error, herror, e', he', hunreadable⟩
      · rw [htexts]
        exact .inl ⟨_, rfl⟩
      · rw [herror]
        exact .inr ⟨error, rfl, e', List.mem_cons_of_mem _ he', hunreadable⟩
    · rw [herror]
      exact .inr ⟨error, rfl, e, List.mem_cons_self, hunreadable⟩

/-- Rendering an effect whose numbers can be written fails only where its shorthand cannot be read. -/
theorem Spells.renders {e : Effect} {s : List Char} (hs : e.Spells s)
    (hshort : e.toDatum.hasTooLong = false) : (∃ t, e.renderChars = .ok t) ∨
      ∃ error, ofText s = .error error ∧ e.renderChars = .error error := by
  rw [hs.renderChars_eq, shorthandOrObject, Datum.literal_of_short hshort, ok_bind]
  cases ofText s with
  | error error => exact .inr ⟨error, rfl, rfl⟩
  | ok r =>
    left
    cases r with
    | none => exact ⟨_, rfl⟩
    | some f =>
      rw [ok_bind]
      split <;> exact ⟨_, rfl⟩

theorem Spells.text_or_unreadable {e : Effect} {s : List Char} (hs : e.Spells s) (htried : e.Tried s)
    (hshort : e.toDatum.hasTooLong = false) : (∃ t, e.renderChars = .ok t) ∨
      ∃ error, e.renderChars = .error error ∧ Unreadable e error := by
  refine (hs.renders hshort).imp_right ?_
  rintro ⟨error, hread, herror⟩
  exact ⟨error, herror, s, htried, hread⟩

theorem renders_of_shorthand? {e : Effect} {s : List Char} (h : e.WellFormed)
    (hs : e.shorthand? = some s) (hshort : e.toDatum.hasTooLong = false) :
    ∃ t, e.renderChars = .ok t := by
  refine ((Spells.simple hs).renders hshort).resolve_right ?_
  rintro ⟨error, herror, -⟩
  obtain ⟨r, hr⟩ := exists_ofText_shorthand? h hs
  rw [hr] at herror
  cases herror

/-- An effect whose numbers can be written has a text, or the shorthand of some effect in it cannot be
read. -/
theorem rendered_or_unreadable {e : Effect} (h : e.WellFormed)
    (hshort : e.toDatum.hasTooLong = false) : (∃ t, e.renderChars = .ok t) ∨
      ∃ error, e.renderChars = .error error ∧ Unreadable e error := by
  have literal : ∀ {e : Effect}, e.toDatum.hasTooLong = false →
      e.renderChars = e.toDatum.literal → ∃ t, e.renderChars = .ok t := by
    intro e hshort hrender
    rw [hrender, Datum.literal_of_short hshort]
    exact ⟨_, rfl⟩
  induction h with
  | setFlag hkey => exact .inl (renders_of_shorthand? (.setFlag hkey) rfl hshort)
  | addResource hkey hdelta =>
    exact .inl (renders_of_shorthand? (.addResource hkey hdelta) rfl hshort)
  | setVariable hkey => exact .inl (renders_of_shorthand? (.setVariable hkey) rfl hshort)
  | goto => exact .inl (renders_of_shorthand? .goto rfl hshort)
  | multiplyResource => exact .inl (literal hshort (by rw [renderChars]))
  | setResource => exact .inl (literal hshort (by rw [renderChars]))
  | @verbatim text => exact .inl ⟨text.toList, by rw [renderChars]⟩
  | @oneOf members _ ih =>
    cases members with
    | nil => exact .inl (literal hshort (by rw [renderChars]))
    | cons e es =>
      rcases renderEach_cases fun e he => ih e he (short_oneOf_iff.1 hshort e he) with
        ⟨texts, htexts⟩ | ⟨error, herror, e', he', text, htried, hread⟩
      · have hne := List.cons_ne_nil e es
        exact (Spells.random hne htexts).text_or_unreadable (.random hne htexts) hshort
      · refine .inr ⟨error, ?_, text, .ofMember he' htried, hread⟩
        rw [renderChars_oneOf, herror]
        rfl
  | @provided condition member hcondition _ ih =>
    obtain ⟨hcondition', hmember⟩ := short_provided_iff.1 hshort
    obtain ⟨text, htext⟩ := Condition.exists_renderChars_eq hcondition hcondition'
    rcases ih hmember with ⟨parts, hparts⟩ | ⟨error, herror, text', htried, hread⟩
    · exact (Spells.conditional htext hparts).text_or_unreadable (.conditional htext hparts) hshort
    · refine .inr ⟨error, ?_, text', .ofProvided htried, hread⟩
      rw [renderChars, htext, ok_bind, herror]
      rfl

end Gamebook.Effect
