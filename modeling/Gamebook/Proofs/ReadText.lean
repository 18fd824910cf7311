import Gamebook.Effect.Shorthand
import Gamebook.Proofs.Overflow
import Gamebook.Proofs.Pieces
import Gamebook.Proofs.Verdict
import Gamebook.Proofs.Writable

/-!
# Texts read as conditions and effects

Any text is read as something: what it spells, what the object in it describes, or the text itself,
kept verbatim.  What is not kept verbatim is well-formed if its numbers are in range
(`Condition.wellFormed_of_ofText`, `Effect.reading_of_ofStripped`).  Effects are read from the parts of
a text, so for them the induction is on its length.

Reading fails only for the range of a number, and then there are more than 308 consecutive digits in
the text (`Condition.scans_ofText`, `Effect.scans_ofText`).
-/

namespace Gamebook

open Numeral (LongRun)
open Text (strip pieces parts cutAt? dropPrefix?)

/-! ## Objects -/

section

variable {α : Type} {x : Except DecodeError α} {kept : Except RangeError α} {a : α}

/-- What an object is read as: what it describes, or something that is kept if it describes nothing. -/
def orKept (x : Except DecodeError α) (kept : Except RangeError α) : Except RangeError α :=
  match x with
  | .ok a => .ok a
  | .error (.tagged _) => kept
  | .error (.range e) => .error e

theorem orKept_eq_ok (h : orKept x kept = .ok a) :
    x = .ok a ∨ Verdict.of x = .refused ∧ kept = .ok a := by
  unfold orKept at h
  split at h
  · exact .inl (congrArg _ (Except.ok.inj h))
  · exact .inr ⟨rfl, h⟩
  · cases h

theorem orKept_of_refused (h : Verdict.of x = .refused) : orKept x kept = kept := by
  rcases x with (e | e) | a
  · rfl
  · cases h
  · cases h

end

theorem Condition.ofObject_eq (d : Datum) (text : Except RangeError (List Char)) :
    ofObject d text = orKept (ofDatum d) (text.map fun cs => .verbatim (String.ofList cs)) := by
  unfold ofObject orKept
  rcases ofDatum d with (e | e) | c <;> rfl

theorem Effect.ofObject_eq (d : Datum) (text : Except RangeError (List Char)) :
    ofObject d text = orKept (ofDatum d) (text.map fun cs => .verbatim (String.ofList cs)) := by
  unfold ofObject orKept
  rcases ofDatum d with (e | e) | c <;> rfl

/-! ## Scanning -/

section

variable {α β : Type} {text : List Char}

/-- A reader of shorthand fails only where a text has a long run of digits. -/
def Scans (text : List Char) (x : Except RangeError α) : Prop :=
  Gives x (fun _ => True) fun _ => LongRun text

theorem Scans.mono {as bs : List Char} {x : Except RangeError α} (h : Scans as x) (hab : as <:+: bs) :
    Scans bs x :=
  Gives.mono h (fun _ => id) fun _ hrun => hrun.mono hab

theorem Scans.bind {x : Except RangeError α} {f : α → Except RangeError β} (h : Scans text x)
    (hf : ∀ a, Scans text (f a)) : Scans text (x >>= f) :=
  Gives.bind h fun a _ => hf a

theorem Scans.map {x : Except RangeError α} (f : α → β) (h : Scans text x) :
    Scans text (x.map f) :=
  Gives.map h fun _ => id

theorem Scans.ok (a : α) : Scans text (.ok a) := trivial

theorem Scans.findSomeM? {f : α → Except RangeError (Option β)} {as : List α}
    (h : ∀ a ∈ as, Scans text (f a)) : Scans text (as.findSomeM? f) := by
  induction as with
  | nil => trivial
  | cons a as ih =>
    refine (h a List.mem_cons_self).bind fun r => ?_
    cases r with
    | some b => trivial
    | none => exact ih fun a' ha' => h a' (List.mem_cons_of_mem _ ha')

theorem Scans.mapM {f : α → Except RangeError β} {as : List α} (h : ∀ a ∈ as, Scans text (f a)) :
    Scans text (as.mapM f) := by
  induction as with
  | nil => trivial
  | cons a as ih =>
    rw [List.mapM_cons]
    exact (h a List.mem_cons_self).bind fun b =>
      (ih fun a' ha' => h a' (List.mem_cons_of_mem _ ha')).bind fun bs => .ok _

theorem Scans.orKept {d : Datum} {x : Except DecodeError α} {kept : Except RangeError α}
    (hx : Decodes d x) (hd : d.Huge → LongRun text) (hkept : Scans text kept) :
    Scans text (orKept x kept) := by
  rcases x with (e | e) | a
  · exact hkept
  · exact hd hx
  · trivial

end

theorem Number.Parts.scans_toNumber {p : Parts} {text : List Char} (h : p.WholeIn text) :
    Scans text p.toNumber :=
  Gives.mono (gives_toNumber h) (fun _ _ => trivial) fun _ => id

/-! ## Conditions -/

namespace Condition

/-! ### What is read -/

/-- What a shorthand spells: keys are not empty and variables are compared with texts. -/
inductive Spelled : Condition → Prop where
  | flagIs {key : String} {value : Bool} (hkey : key ≠ "") : Spelled (.flagIs key value)
  | resourceIs {key : String} {relation : Relation} {value : Number} (hkey : key ≠ "") :
    Spelled (.resourceIs key relation value)
  | variableIs {key : String} {likeness : Likeness} {text : String} (hkey : key ≠ "") :
    Spelled (.variableIs key likeness (.text text))
  | during {start stop : Number} : Spelled (.during start stop)

theorem ofList_ne_empty {cs : List Char} (h : cs.isEmpty = false) : String.ofList cs ≠ "" := by
  intro heq
  have hnil : cs = [] := String.ofList_injective heq
  rw [hnil] at h
  cases h

theorem spelled_of_ofWindow? {cs : List Char} {c : Condition} (h : ofWindow? cs = .ok (some c)) :
    c.Spelled := by
  unfold ofWindow? at h
  split at h
  · cases h
  · split at h
    · obtain ⟨start, -, h⟩ := bind_eq_ok_iff.1 h
      obtain ⟨stop, -, h⟩ := bind_eq_ok_iff.1 h
      cases h
      exact .during
    · cases h

theorem exists_cutAt?_of_cutAssignment? {cs line : List Char} {key : String}
    (h : cutAssignment? cs = some (key, line)) : ∃ front, cutAt? '=' cs = some (front, line) := by
  unfold cutAssignment? at h
  split at h
  · cases h
  · next front _ hcut =>
    obtain ⟨-, heq⟩ := Option.ite_none_left_eq_some.1 h
    cases heq
    exact ⟨front, hcut⟩

theorem ne_empty_of_cutAssignment? {cs line : List Char} {key : String}
    (h : cutAssignment? cs = some (key, line)) : key ≠ "" := by
  unfold cutAssignment? at h
  split at h
  · cases h
  · obtain ⟨hnot, heq⟩ := Option.ite_none_left_eq_some.1 h
    cases heq
    rw [Bool.or_eq_true, not_or, Bool.not_eq_true] at hnot
    exact ofList_ne_empty hnot.1

theorem spelled_of_ofFlag? {cs : List Char} {c : Condition} (h : ofFlag? cs = some c) :
    c.Spelled := by
  obtain ⟨⟨key, line⟩, hcut, rfl⟩ := Option.map_eq_some_iff.1 h
  exact .flagIs (ne_empty_of_cutAssignment? hcut)

theorem spelled_of_ofResource? {cs : List Char} {c : Condition}
    (h : ofResource? cs = .ok (some c)) : c.Spelled := by
  unfold ofResource? at h
  dsimp only at h
  split at h
  · cases h
  · split at h
    · cases h
    · split at h
      · cases h
      · obtain ⟨value, -, h⟩ := bind_eq_ok_iff.1 h
        obtain ⟨hnot, heq⟩ := Option.ite_none_left_eq_some.1 (Except.ok.inj h)
        cases heq
        exact .resourceIs (ofList_ne_empty (Bool.eq_false_iff.2 hnot))

theorem spelled_of_ofVariable? {cs : List Char} {c : Condition} (h : ofVariable? cs = some c) :
    c.Spelled := by
  unfold ofVariable? at h
  split at h
  · cases h
  · obtain ⟨hnot, heq⟩ := Option.ite_none_left_eq_some.1 h
    cases heq
    exact .variableIs (ofList_ne_empty (Bool.eq_false_iff.2 hnot))

/-- What a search finds is found in one of the elements. -/
theorem exists_of_findSomeM? {ε α β : Type} {f : α → Except ε (Option β)} {as : List α} {b : β}
    (h : as.findSomeM? f = .ok (some b)) : ∃ a ∈ as, f a = .ok (some b) := by
  induction as with
  | nil => cases h
  | cons a as ih =>
    obtain ⟨found, hfound, hrest⟩ := bind_eq_ok_iff.1 h
    cases found with
    | some b' =>
      cases hrest
      exact ⟨a, List.mem_cons_self, hfound⟩
    | none =>
      obtain ⟨a', ha', hb⟩ := ih hrest
      exact ⟨a', List.mem_cons_of_mem _ ha', hb⟩

theorem spelled_of_ofShorthand? {cs : List Char} {c : Condition}
    (h : ofShorthand? cs = .ok (some c)) : c.Spelled := by
  obtain ⟨form, hform, hread⟩ := exists_of_findSomeM? h
  split at hread
  · next rest _ =>
    simp only [forms, List.mem_cons, List.not_mem_nil, or_false] at hform
    rcases hform with rfl | rfl | rfl | rfl | rfl
    · exact spelled_of_ofWindow? hread
    · exact spelled_of_ofWindow? hread
    · exact spelled_of_ofFlag? (Except.ok.inj hread)
    · exact spelled_of_ofResource? hread
    · exact spelled_of_ofVariable? (Except.ok.inj hread)
  · cases hread

theorem Spelled.wellFormed {c : Condition} (h : c.Spelled)
    (hfinite : ∀ n ∈ c.numbers, n.isFinite = .ok true) : c.WellFormed := by
  cases h with
  | flagIs hkey => exact .flagIs hkey
  | resourceIs hkey => exact .resourceIs hkey (hfinite _ List.mem_cons_self)
  | variableIs hkey => exact .variableIs hkey
  | during =>
    exact .during (hfinite _ List.mem_cons_self)
      (hfinite _ (List.mem_cons_of_mem _ List.mem_cons_self))

/-- A tagged object is not read as verbatim text. -/
theorem ne_verbatim_of_ofDatum {ms : Tagged.Members} {c : Condition}
    (h : ofDatum (.object ms) = .ok c) (s : String) : c ≠ .verbatim s := by
  rintro rfl
  rw [ofDatum] at h
  split at h <;> simp [bind_eq_ok_iff] at h

/-- A text is read as itself or as a condition with the form of one. -/
theorem ofStripped_cases {cs : List Char} {c : Condition} (h : ofStripped cs = .ok c) :
    c = .verbatim (String.ofList cs) ∨ (∀ s, c ≠ .verbatim s) ∧
      ((∀ n ∈ c.numbers, n.isFinite = .ok true) → c.WellFormed) := by
  unfold ofStripped at h
  split at h
  · split at h
    · next hread =>
      obtain ⟨ms, rfl⟩ := Datum.exists_object_of_read hread
      rw [ofObject_eq] at h
      rcases orKept_eq_ok h with hd | ⟨-, hkept⟩
      · exact .inr ⟨ne_verbatim_of_ofDatum hd, fun _ => wellFormed_of_ofDatum _ hd⟩
      · exact .inl (Except.ok.inj hkept).symm
    · cases h
      exact .inl rfl
    · cases h
  · obtain ⟨r, hr, heq⟩ := bind_eq_ok_iff.1 h
    cases r with
    | none =>
      cases heq
      exact .inl rfl
    | some d =>
      cases heq
      have hspelled := spelled_of_ofShorthand? hr
      refine .inr ⟨?_, hspelled.wellFormed⟩
      rintro s rfl
      cases hspelled

theorem ofText_eq_ok {cs : List Char} {c : Condition} (h : ofText cs = .ok (some c)) :
    ofStripped (strip cs) = .ok c := by
  unfold ofText at h
  dsimp only at h
  split at h
  · cases h
  · obtain ⟨d, hd, heq⟩ := map_eq_ok_iff.1 h
    rw [hd, Option.some.inj heq]

/-- What is read from a text is well-formed if its numbers are in range. -/
theorem wellFormed_of_ofText {cs : List Char} {c : Condition} (h : ofText cs = .ok (some c))
    (hfinite : ∀ n ∈ c.numbers, n.isFinite = .ok true) : c.WellFormed := by
  rcases ofStripped_cases (ofText_eq_ok h) with rfl | ⟨-, hwell⟩
  · exact .verbatim
  · exact hwell hfinite

theorem ofText_strip (cs : List Char) : ofText (strip cs) = ofText cs := by
  unfold ofText
  rw [Text.strip_strip]

/-! ### What is refused -/

theorem cutRelation?_eq_append {cs rest : List Char} {relation : Relation}
    (h : cutRelation? cs = some (relation, rest)) :
    ∃ a signs, cs = signs ++ rest ∧ signs.getLast? = some a ∧ endsKey a = true := by
  unfold cutRelation? at h
  split at h
  · cases h
    exact ⟨'=', ['>', '='], rfl, rfl, by decide⟩
  · cases h
    exact ⟨'=', ['<', '='], rfl, rfl, by decide⟩
  · cases h
    exact ⟨'=', ['=', '='], rfl, rfl, by decide⟩
  · cases h
    exact ⟨'=', ['='], rfl, rfl, by decide⟩
  · cases h
    exact ⟨'>', ['>'], rfl, rfl, by decide⟩
  · cases h
    exact ⟨'<', ['<'], rfl, rfl, by decide⟩
  · cases h

theorem scans_ofWindow? (cs : List Char) : Scans cs (ofWindow? cs) := by
  unfold ofWindow?
  split
  · trivial
  · next start stop hcut =>
    obtain ⟨hstart, hstop⟩ := Text.cutAt?_isInfix hcut
    split
    · next a b ha hb =>
      have hfirst := (Number.Parts.wholeIn_of_ofDigits? ha).mono hstart
      have hlast := (Number.Parts.wholeIn_of_ofDigits? hb).mono hstop
      exact (Number.Parts.scans_toNumber hfirst).bind fun _ =>
        (Number.Parts.scans_toNumber hlast).bind fun _ => .ok _
    · trivial

theorem cutRelation?_suffix {cs rest : List Char} {relation : Relation}
    (h : cutRelation? cs = some (relation, rest)) : rest <:+ cs := by
  obtain ⟨_, signs, rfl, -, -⟩ := cutRelation?_eq_append h
  exact List.suffix_append _ _

theorem scans_ofResource? (cs : List Char) : Scans cs (ofResource? cs) := by
  unfold ofResource?
  dsimp only
  split
  · trivial
  · next relation rest hcut =>
    have hrest := (cutRelation?_suffix hcut).trans (List.dropWhile_suffix _)
    split
    · trivial
    · split
      · trivial
      · next parts hparts =>
        have hwhole := (Number.Parts.wholeIn_of_ofPlain? hparts).mono
          ((Text.strip_isInfix rest).trans hrest.isInfix)
        refine (Number.Parts.scans_toNumber hwhole).bind fun value => ?_
        trivial

theorem scans_ofShorthand? (cs : List Char) : Scans cs (ofShorthand? cs) := by
  refine Scans.findSomeM? fun form hform => ?_
  split
  · next rest hrest =>
    have hpart := Text.dropPrefix?_isInfix hrest
    simp only [forms, List.mem_cons, List.not_mem_nil, or_false] at hform
    rcases hform with rfl | rfl | rfl | rfl | rfl
    · exact (scans_ofWindow? rest).mono hpart
    · exact (scans_ofWindow? rest).mono hpart
    · trivial
    · exact (scans_ofResource? rest).mono hpart
    · trivial
  · trivial

theorem scans_ofStripped (cs : List Char) : Scans cs (ofStripped cs) := by
  unfold ofStripped
  split
  · next rest =>
    have hread := Datum.gives_read ('\x7b' :: rest)
    split
    · next d hd =>
      rw [hd] at hread
      rw [ofObject_eq]
      exact .orKept (decodes_ofDatum d) hread (.ok _)
    · trivial
    · next e he =>
      rw [he] at hread
      exact hread e rfl
  · exact (scans_ofShorthand? cs).bind fun r => .ok _

/-- A text is refused only where it has a long run of digits. -/
theorem scans_ofText (cs : List Char) : Scans cs (ofText cs) := by
  unfold ofText
  dsimp only
  split
  · trivial
  · exact ((scans_ofStripped _).mono (Text.strip_isInfix cs)).map _

end Condition

/-! ## Effects -/

namespace Effect

/-! ### Forms -/

theorem mapM_attach_filter {α β : Type} {ε : Type} (as : List α) (p : α → Bool)
    (f : α → Except ε β) :
    (as.attach.filter fun a => p a.1).mapM (fun a => f a.1) = (as.filter p).mapM f := by
  have hfilter : (as.attach.filter fun a => p a.1).map Subtype.val = as.filter p := by
    conv_rhs => rw [← List.attach_map_subtype_val as, List.filter_map]
    rfl
  rw [← hfilter, List.mapM_map]
  rfl

theorem ofStripped_object {cs : List Char} (h : Form.ofText cs = .object) :
    ofStripped cs =
      match Datum.read cs with
      | .ok d => ofObject d (.ok cs)
      | .error (.malformed _) => .ok (.verbatim (String.ofList cs))
      | .error (.range e) => .error e := by
  rw [ofStripped.eq_def]
  split
  · rfl
  · next hform => rw [h] at hform; cases hform
  · next hform => rw [h] at hform; cases hform
  · next hform => rw [h] at hform; cases hform

theorem ofStripped_simple {cs : List Char} (h : Form.ofText cs = .simple) :
    ofStripped cs = (ofShorthand? cs).map fun r => r.getD (.verbatim (String.ofList cs)) := by
  rw [ofStripped.eq_def]
  split
  · next hform => rw [h] at hform; cases hform
  · next hform => rw [h] at hform; cases hform
  · next hform => rw [h] at hform; cases hform
  · cases ofShorthand? cs <;> rfl

/-- The members of a random effect are read from the parts between bars. -/
theorem ofStripped_random {cs members : List Char} (h : Form.ofText cs = .random members) :
    ofStripped cs = (parts '|' members).mapM ofStripped >>= fun read =>
      .ok (if read.isEmpty then .verbatim (String.ofList cs) else .oneOf read) := by
  rw [ofStripped.eq_def]
  split
  · next hform => rw [h] at hform; cases hform
  · next hform =>
    rw [h] at hform
    cases hform
    have hmembers := mapM_attach_filter (pieces '|' members) (fun p => !(strip p).isEmpty)
      fun p => ofStripped (strip p)
    beta_reduce at hmembers
    rw [hmembers, parts, List.mapM_map]
    congr 1
    funext read
    split <;> rfl
  · next hform => rw [h] at hform; cases hform
  · next hform => rw [h] at hform; cases hform

theorem ofStripped_conditional {cs parts : List Char} (h : Form.ofText cs = .conditional parts) :
    ofStripped cs =
      match cutAt? '?' parts with
      | none => (Condition.ofText parts).map fun _ => .verbatim (String.ofList cs)
      | some (condition, effect) => Condition.ofText condition >>= fun
        | none =>
          if (strip effect).isEmpty then .ok (.verbatim (String.ofList cs))
          else (ofStripped (strip effect)).map fun _ => .verbatim (String.ofList cs)
        | some c =>
          if (strip effect).isEmpty then .ok (.verbatim (String.ofList cs))
          else (ofStripped (strip effect)).map fun e => .provided c e := by
  rw [ofStripped.eq_def]
  split
  · next hform => rw [h] at hform; cases hform
  · next hform => rw [h] at hform; cases hform
  · next hform =>
    rw [h] at hform
    cases hform
    split
    · next hcut => rw [hcut]
    · next condition effect hcut =>
      rw [hcut]
      simp only
      cases Condition.ofText condition with
      | error e => rfl
      | ok r =>
        rw [ok_bind, ok_bind]
        cases r with
        | none =>
          simp only
          cases hempty : (strip effect).isEmpty with
          | true => rfl
          | false => cases ofStripped (strip effect) <;> rfl
        | some c =>
          simp only
          cases hempty : (strip effect).isEmpty with
          | true => rfl
          | false => cases ofStripped (strip effect) <;> rfl
  · next hform => rw [h] at hform; cases hform

theorem isInfix_of_random {cs members : List Char} (h : Form.ofText cs = .random members) :
    members <:+: cs := by
  unfold Form.ofText at h
  split at h
  · cases h
  · split at h
    · next hdrop =>
      cases h
      exact Text.dropPrefix?_isInfix hdrop
    · split at h <;> cases h

theorem isInfix_of_conditional {cs parts : List Char} (h : Form.ofText cs = .conditional parts) :
    parts <:+: cs := by
  unfold Form.ofText at h
  split at h
  · cases h
  · split at h
    · cases h
    · split at h
      · next hdrop =>
        cases h
        exact Text.dropPrefix?_isInfix hdrop
      · cases h

/-! ### What is read -/

/-- A tagged object is not read as verbatim text. -/
theorem ne_verbatim_of_ofDatum {ms : Tagged.Members} {e : Effect}
    (h : ofDatum (.object ms) = .ok e) (s : String) : e ≠ .verbatim s := by
  rintro rfl
  rw [ofDatum] at h
  split at h <;> simp [bind_eq_ok_iff] at h

/-- What is read from a text: the text itself, or an effect that has the form of one if its numbers
are in range. -/
def Reading (cs : List Char) (e : Effect) : Prop :=
  e = .verbatim (String.ofList cs) ∨ (∀ s, e ≠ .verbatim s) ∧
    ((∀ n ∈ e.numbers, n.isFinite = .ok true) → e.WellFormed)

theorem Reading.wellFormed {cs : List Char} {e : Effect} (h : Reading cs e)
    (hfinite : ∀ n ∈ e.numbers, n.isFinite = .ok true) : e.WellFormed := by
  rcases h with rfl | ⟨-, hwell⟩
  · exact .verbatim
  · exact hwell hfinite

theorem reading_of_ofShorthand? {cs : List Char} {e : Effect}
    (h : ofShorthand? cs = .ok (some e)) : Reading cs e := by
  obtain ⟨form, hform, hread⟩ := Condition.exists_of_findSomeM? h
  split at hread
  · next rest _ =>
    simp only [forms, List.mem_cons, List.not_mem_nil, or_false] at hform
    rcases hform with rfl | rfl | rfl | rfl
    · obtain ⟨⟨key, line⟩, hcut, rfl⟩ := Option.map_eq_some_iff.1 (Except.ok.inj hread)
      exact .inr ⟨nofun, fun _ => .setFlag (Condition.ne_empty_of_cutAssignment? hcut)⟩
    · change ofAddResource? rest = _ at hread
      unfold ofAddResource? at hread
      split at hread
      · cases hread
      · next key line hcut =>
        split at hread
        · cases hread
        · obtain ⟨delta, -, hread⟩ := bind_eq_ok_iff.1 hread
          cases hread
          exact .inr ⟨nofun, fun hfinite =>
            .addResource (Condition.ne_empty_of_cutAssignment? hcut) (hfinite _ List.mem_cons_self)⟩
    · obtain ⟨⟨key, line⟩, hcut, rfl⟩ := Option.map_eq_some_iff.1 (Except.ok.inj hread)
      exact .inr ⟨nofun, fun _ => .setVariable (Condition.ne_empty_of_cutAssignment? hcut)⟩
    · obtain ⟨-, heq⟩ := Option.ite_none_left_eq_some.1 (Except.ok.inj hread)
      cases heq
      exact .inr ⟨nofun, fun _ => .goto⟩
  · cases hread

/-- What a calculation over a list gives comes from the elements of the list. -/
theorem exists_of_mem_mapM {ε α β : Type} {f : α → Except ε β} {as : List α} {bs : List β}
    (h : as.mapM f = .ok bs) : ∀ b ∈ bs, ∃ a ∈ as, f a = .ok b := by
  induction as generalizing bs with
  | nil =>
    cases h
    exact List.forall_mem_nil _
  | cons a as ih =>
    rw [List.mapM_cons] at h
    obtain ⟨b, hb, h⟩ := bind_eq_ok_iff.1 h
    obtain ⟨bs', hbs, h⟩ := bind_eq_ok_iff.1 h
    cases h
    refine List.forall_mem_cons.2 ⟨⟨a, List.mem_cons_self, hb⟩, fun b' hb' => ?_⟩
    obtain ⟨a', ha', hab⟩ := ih hbs b' hb'
    exact ⟨a', List.mem_cons_of_mem _ ha', hab⟩

theorem exists_eq_cons_of_object {cs : List Char} (h : Form.ofText cs = .object) :
    ∃ rest, cs = '\x7b' :: rest := by
  unfold Form.ofText at h
  split at h
  · exact ⟨_, rfl⟩
  · split at h
    · cases h
    · split at h <;> cases h

/-- A shorter text inside of a text. -/
structure Part (part cs : List Char) : Prop where
  isInfix : part <:+: cs
  shorter : part.length < cs.length

/-- How a text is read: it is kept, or an object in it or its shorthand is read, or the parts of an
effect are read from parts of the text. -/
inductive ReadAs (cs : List Char) : Effect → Prop where
  | kept : ReadAs cs (.verbatim (String.ofList cs))
  | object {ms : Tagged.Members} {e : Effect} (h : ofDatum (.object ms) = .ok e) : ReadAs cs e
  | shorthand {e : Effect} (h : ofShorthand? cs = .ok (some e)) : ReadAs cs e
  | oneOf {members : List Effect} (h : ∀ e ∈ members, ∃ p, Part p cs ∧ ofStripped p = .ok e) :
    ReadAs cs (.oneOf members)
  | provided {text p : List Char} {condition : Condition} {member : Effect} (htext : text <:+: cs)
      (hcondition : Condition.ofText text = .ok (some condition)) (hp : Part p cs)
      (h : ofStripped p = .ok member) : ReadAs cs (.provided condition member)

theorem part_of_random {cs members p : List Char} (hform : Form.ofText cs = .random members)
    (hp : p ∈ parts '|' members) : Part p cs := by
  obtain ⟨piece, hpiece, rfl⟩ := List.mem_map.1 hp
  have hmem := (List.mem_filter.1 hpiece).1
  have hlength := Text.length_le_of_mem_pieces hmem
  have hshorter := Form.length_lt_of_random hform
  have hstrip := length_strip_le piece
  have hpart := (Text.pieces_isInfix hmem).trans (isInfix_of_random hform)
  exact ⟨(Text.strip_isInfix piece).trans hpart, by omega⟩

theorem part_of_conditional {cs parts condition effect : List Char}
    (hform : Form.ofText cs = .conditional parts)
    (hcut : cutAt? '?' parts = some (condition, effect)) : Part (strip effect) cs := by
  have hlength := congrArg List.length (Text.eq_append_of_cutAt? hcut)
  rw [List.length_append, List.length_cons] at hlength
  have hshorter := Form.length_lt_of_conditional hform
  have hstrip := length_strip_le effect
  have hpart := (Text.cutAt?_isInfix hcut).2.trans (isInfix_of_conditional hform)
  exact ⟨(Text.strip_isInfix effect).trans hpart, by omega⟩

theorem ofText_eq_ok_iff {cs : List Char} {e : Effect} :
    ofText cs = .ok (some e) ↔ strip cs ≠ [] ∧ ofStripped (strip cs) = .ok e := by
  unfold ofText
  cases hstrip : strip cs with
  | nil => simp
  | cons c rest =>
    simp only [List.isEmpty_cons, Bool.false_eq_true, ↓reduceIte, map_eq_ok_iff]
    constructor
    · rintro ⟨f, hf, heq⟩
      exact ⟨List.cons_ne_nil _ _, Option.some.inj heq ▸ hf⟩
    · exact fun h => ⟨e, h.2, rfl⟩

theorem ofText_eq_ok {cs : List Char} {e : Effect} (h : ofText cs = .ok (some e)) :
    ofStripped (strip cs) = .ok e :=
  (ofText_eq_ok_iff.1 h).2

theorem ofText_strip (cs : List Char) : ofText (strip cs) = ofText cs := by
  unfold ofText
  rw [Text.strip_strip]

section

variable {cs : List Char} {e : Effect}

theorem cases_of_object (hform : Form.ofText cs = .object) (h : ofStripped cs = .ok e) :
    e = .verbatim (String.ofList cs) ∨
      ∃ ms, Datum.read cs = .ok (.object ms) ∧ ofDatum (.object ms) = .ok e := by
  rw [ofStripped_object hform] at h
  split at h
  · next d hread =>
    obtain ⟨rest, rfl⟩ := exists_eq_cons_of_object hform
    obtain ⟨ms, rfl⟩ := Datum.exists_object_of_read hread
    rw [ofObject_eq] at h
    rcases orKept_eq_ok h with hd | ⟨-, hkept⟩
    · exact .inr ⟨ms, hread, hd⟩
    · exact .inl (Except.ok.inj hkept).symm
  · exact .inl (Except.ok.inj h).symm
  · cases h

theorem cases_of_random {members : List Char} (hform : Form.ofText cs = .random members)
    (h : ofStripped cs = .ok e) :
    e = .verbatim (String.ofList cs) ∨
      ∃ read, (parts '|' members).mapM ofStripped = .ok read ∧ e = .oneOf read := by
  rw [ofStripped_random hform] at h
  obtain ⟨read, hread, heq⟩ := bind_eq_ok_iff.1 h
  split at heq
  · exact .inl (Except.ok.inj heq).symm
  · exact .inr ⟨read, hread, (Except.ok.inj heq).symm⟩

theorem cases_of_conditional {parts : List Char} (hform : Form.ofText cs = .conditional parts)
    (h : ofStripped cs = .ok e) :
    e = .verbatim (String.ofList cs) ∨
      ∃ text effect condition member, cutAt? '?' parts = some (text, effect) ∧
        Condition.ofText text = .ok (some condition) ∧ ofText effect = .ok (some member) ∧
        e = .provided condition member := by
  rw [ofStripped_conditional hform] at h
  split at h
  · obtain ⟨_, -, rfl⟩ := map_eq_ok_iff.1 h
    exact .inl rfl
  · next text effect hcut =>
    obtain ⟨r, hr, h⟩ := bind_eq_ok_iff.1 h
    cases r with
    | none =>
      simp only at h
      split at h
      · exact .inl (Except.ok.inj h).symm
      · obtain ⟨_, -, rfl⟩ := map_eq_ok_iff.1 h
        exact .inl rfl
    | some condition =>
      simp only at h
      split at h
      · exact .inl (Except.ok.inj h).symm
      · next hne =>
        obtain ⟨member, hmember, rfl⟩ := map_eq_ok_iff.1 h
        have heffect := ofText_eq_ok_iff.2 ⟨by simpa using hne, hmember⟩
        exact .inr ⟨text, effect, condition, member, hcut, hr, heffect, rfl⟩

theorem cases_of_simple (hform : Form.ofText cs = .simple) (h : ofStripped cs = .ok e) :
    e = .verbatim (String.ofList cs) ∨ ofShorthand? cs = .ok (some e) := by
  rw [ofStripped_simple hform] at h
  obtain ⟨r, hr, rfl⟩ := map_eq_ok_iff.1 h
  cases r with
  | none => exact .inl rfl
  | some e => exact .inr hr

theorem ofText_of_simple (hne : strip cs ≠ []) (hform : Form.ofText (strip cs) = .simple)
    (h : ofShorthand? (strip cs) = .ok (some e)) : ofText cs = .ok (some e) := by
  refine ofText_eq_ok_iff.2 ⟨hne, ?_⟩
  rw [ofStripped_simple hform, h]
  rfl

theorem ofText_of_conditional {p text effect : List Char} {condition : Condition}
    (hform : Form.ofText (strip cs) = .conditional p)
    (hcut : cutAt? '?' p = some (text, effect))
    (hcondition : Condition.ofText text = .ok (some condition))
    (heffect : ofText effect = .ok (some e)) :
    ofText cs = .ok (some (.provided condition e)) := by
  obtain ⟨hne, hmember⟩ := ofText_eq_ok_iff.1 heffect
  have hnotempty : strip cs ≠ [] := by
    intro hnil
    rw [hnil] at hform
    cases hform
  refine ofText_eq_ok_iff.2 ⟨hnotempty, ?_⟩
  rw [ofStripped_conditional hform, hcut]
  simp only [hcondition, ok_bind, List.isEmpty_eq_false_iff.2 hne, hmember]
  rfl

theorem readAs_of_ofStripped (h : ofStripped cs = .ok e) : ReadAs cs e := by
  cases hform : Form.ofText cs with
  | object =>
    rcases cases_of_object hform h with rfl | ⟨ms, -, hd⟩
    · exact .kept
    · exact .object hd
  | random members =>
    rcases cases_of_random hform h with rfl | ⟨read, hread, rfl⟩
    · exact .kept
    · refine .oneOf fun e he => ?_
      obtain ⟨p, hp, hpe⟩ := exists_of_mem_mapM hread e he
      exact ⟨p, part_of_random hform hp, hpe⟩
  | conditional parts =>
    rcases cases_of_conditional hform h with
      rfl | ⟨text, effect, condition, member, hcut, hcondition, hmember, rfl⟩
    · exact .kept
    · have htext := (Text.cutAt?_isInfix hcut).1.trans (isInfix_of_conditional hform)
      exact .provided htext hcondition (part_of_conditional hform hcut) (ofText_eq_ok hmember)
  | simple =>
    rcases cases_of_simple hform h with rfl | hread
    · exact .kept
    · exact .shorthand hread

end

/-- A text is read as itself or as an effect with the form of one, and so are its parts, which are
shorter. -/
theorem reading_of_ofStripped {cs : List Char} {e : Effect} (h : ofStripped cs = .ok e) :
    Reading cs e := by
  induction hn : cs.length using Nat.strong_induction_on generalizing cs e with
  | _ n ih =>
    subst hn
    cases readAs_of_ofStripped h with
    | kept => exact .inl rfl
    | object hd => exact .inr ⟨ne_verbatim_of_ofDatum hd, fun _ => wellFormed_of_ofDatum _ hd⟩
    | shorthand hread => exact reading_of_ofShorthand? hread
    | oneOf hmembers =>
      refine .inr ⟨nofun, fun hfinite => .oneOf fun e he => ?_⟩
      obtain ⟨p, hp, hpe⟩ := hmembers e he
      exact (ih _ hp.shorter hpe rfl).wellFormed fun n hn =>
        hfinite n (mem_numbersOfAll.2 ⟨e, he, hn⟩)
    | provided htext hcondition hp hmember =>
      refine .inr ⟨nofun, fun hfinite => .provided ?_ ?_⟩
      · exact Condition.wellFormed_of_ofText hcondition fun n hn =>
          hfinite n (List.mem_append_left _ hn)
      · exact (ih _ hp.shorter hmember rfl).wellFormed fun n hn =>
          hfinite n (List.mem_append_right _ hn)

/-! ### What is refused -/

theorem scans_ofAddResource? (cs : List Char) : Scans cs (ofAddResource? cs) := by
  unfold ofAddResource?
  split
  · trivial
  · next key line hassign =>
    obtain ⟨front, hcut⟩ := Condition.exists_cutAt?_of_cutAssignment? hassign
    split
    · trivial
    · next parts hparts =>
      have hwhole := (Number.Parts.wholeIn_of_ofPlain? hparts).mono (Text.cutAt?_isInfix hcut).2
      exact (Number.Parts.scans_toNumber hwhole).bind fun _ => .ok _

theorem scans_ofShorthand? (cs : List Char) : Scans cs (ofShorthand? cs) := by
  refine Scans.findSomeM? fun form hform => ?_
  split
  · next rest hrest =>
    have hpart := Text.dropPrefix?_isInfix hrest
    simp only [forms, List.mem_cons, List.not_mem_nil, or_false] at hform
    rcases hform with rfl | rfl | rfl | rfl
    · trivial
    · exact (scans_ofAddResource? rest).mono hpart
    · trivial
    · trivial
  · trivial

/-- A text is refused only where it has a long run of digits.  The induction is on the length, as
members are read from parts of the text. -/
theorem scans_ofStripped (cs : List Char) : Scans cs (ofStripped cs) := by
  induction hn : cs.length using Nat.strong_induction_on generalizing cs with
  | _ n ih =>
    subst hn
    have hpart : ∀ {p}, Part p cs → Scans cs (ofStripped p) :=
      fun hp => (ih _ hp.shorter _ rfl).mono hp.isInfix
    cases hform : Form.ofText cs with
    | object =>
      have hread := Datum.gives_read cs
      rw [ofStripped_object hform]
      split
      · next d hd =>
        rw [hd] at hread
        rw [ofObject_eq]
        exact .orKept (decodes_ofDatum d) hread (.ok _)
      · trivial
      · next e he =>
        rw [he] at hread
        exact hread e rfl
    | random members =>
      rw [ofStripped_random hform]
      exact (Scans.mapM fun p hp => hpart (part_of_random hform hp)).bind fun read => .ok _
    | conditional parts =>
      have hparts := isInfix_of_conditional hform
      rw [ofStripped_conditional hform]
      split
      · exact ((Condition.scans_ofText parts).mono hparts).map _
      · next condition effect hcut =>
        have hcondition := (Text.cutAt?_isInfix hcut).1.trans hparts
        have hmember := hpart (part_of_conditional hform hcut)
        refine ((Condition.scans_ofText condition).mono hcondition).bind fun r => ?_
        split
        · split
          · trivial
          · exact hmember.map _
        · split
          · trivial
          · exact hmember.map _
    | simple =>
      rw [ofStripped_simple hform]
      exact (scans_ofShorthand? cs).map _

theorem scans_ofText (cs : List Char) : Scans cs (ofText cs) := by
  unfold ofText
  dsimp only
  split
  · trivial
  · exact ((scans_ofStripped _).mono (Text.strip_isInfix cs)).map _

end Effect

end Gamebook
