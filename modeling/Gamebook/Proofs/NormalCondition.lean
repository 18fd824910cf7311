import Gamebook.Proofs.Agreement
import Gamebook.Proofs.Beginning
import Gamebook.Proofs.ConditionText
import Gamebook.Proofs.Origin
import Gamebook.Proofs.Pieces

/-!
# Normal texts of conditions

The text of a condition that was read from a text does not change when it is read and written again
(`Condition.renderChars_fixed`).  The text is one that was kept, an object or a shorthand
(`Condition.Rendered`).  Kept text is read as itself, and the text of an object as the condition or as
kept text.  A shorthand was chosen because it is read as something that agrees with the condition.
Numbers that agree have the same plain text, so what is read has the same shorthand, and trying it has
the same outcome (`Condition.renderChars_of_agrees`).

Inside of an effect the text of a condition ends at a question mark.  None of the question marks in
the text can be taken for it: what is in front of them does not stand for the condition
(`Condition.not_agrees_of_beginning`).
-/

namespace Gamebook

open Text (strip stripEnd cutAt?)

/-- The characters of the plain text of a number: those of a notation, and of the words for numbers
that are not finite. -/
theorem Number.mem_plainText {n : Number} {c : Char} (hc : c ∈ n.plainText) :
    Numeral.isDigit c = true ∨ c ∈ ['-', '+', '.', 'e', 'i', 'n', 'f', 'a'] := by
  have numeral : IsNumeralChar c →
      Numeral.isDigit c = true ∨ c ∈ ['-', '+', '.', 'e', 'i', 'n', 'f', 'a'] :=
    Or.imp_right fun hmem => List.mem_append_left ['i', 'n', 'f', 'a'] hmem
  cases n with
  | int k =>
    have hint : c ∈ (Parts.ofInteger k).text := by rwa [Parts.text_ofInteger]
    exact numeral (isNumeralChar_of_mem_text (Parts.wellFormed_ofInteger k) hint)
  | float x =>
    cases x with
    | finite s g hg => exact numeral (isNumeralChar_of_mem_plainText rfl hc)
    | infinite s =>
      have hword : ∀ s, (Number.float (.infinite s)).plainText ⊆
          ['-', '+', '.', 'e', 'i', 'n', 'f', 'a'] := by decide
      exact .inr (hword s hc)
    | undefined origin =>
      have hword : ['n', 'a', 'n'] ⊆ ['-', '+', '.', 'e', 'i', 'n', 'f', 'a'] := by decide
      exact .inr (hword hc)

theorem Number.not_mem_plainText {c : Char}
    (hc : Numeral.isDigit c = false ∧ c ∉ ['-', '+', '.', 'e', 'i', 'n', 'f', 'a']) (n : Number) :
    c ∉ n.plainText := by
  intro hmem
  rcases mem_plainText hmem with hdigit | hother
  · rw [hc.1] at hdigit
    cases hdigit
  · exact hc.2 hother

/-- A text that goes on behind a mark has everything in front of the mark. -/
theorem exists_append_of_mark {mark : Char} {a w b body : List Char} (hb : mark ∉ b)
    (h : a ++ mark :: w = b ++ body) : ∃ a', a = b ++ a' ∧ body = a' ++ mark :: w := by
  rcases List.append_eq_append_iff.1 h with ⟨b', rfl, hbody⟩ | ⟨a', rfl, hbody⟩
  · cases b' with
    | nil => exact ⟨[], (List.append_nil _).symm ▸ (List.append_nil _).symm, hbody.symm⟩
    | cons c b' =>
      obtain ⟨rfl, -⟩ := List.cons.inj hbody
      exact absurd (List.mem_append_right _ List.mem_cons_self) hb
  · exact ⟨a', rfl, hbody⟩

namespace Condition

/-! ## Shorthand -/

/-- The shorthand of what a text spells has no question mark that is not in the text. -/
theorem SpelledIn.question_not_mem {cs s : List Char} {c : Condition} (h : c.SpelledIn cs)
    (hcs : '?' ∉ cs) (hs : c.shorthand? = some s) : '?' ∉ s := by
  have part : ∀ {t : String}, t.toList <:+: cs → '?' ∉ t.toList := fun ht hmem =>
    hcs (ht.subset hmem)
  have number : ∀ n : Number, '?' ∉ n.plainText := Number.not_mem_plainText (by decide)
  cases h with
  | @flagIs key value hkey =>
    obtain rfl := Option.some.inj hs
    have hword : ∀ b, '?' ∉ '=' :: truthWord b := by decide
    rw [List.mem_append, List.mem_append, not_or, not_or]
    exact ⟨⟨by decide, part hkey⟩, hword value⟩
  | @resourceIs key relation value p hkey hin hvalue =>
    obtain rfl := Option.some.inj hs
    have hsign : '?' ∉ relation.sign.toList := by cases relation <;> decide
    rw [List.mem_append, List.mem_append, List.mem_append, not_or, not_or, not_or]
    exact ⟨⟨⟨by decide, part hkey⟩, hsign⟩, number value⟩
  | @variableIs key likeness text hkey htext =>
    obtain rfl := Option.some.inj hs
    have hsign : '?' ∉ likeness.sign.toList := by cases likeness <;> decide
    rw [List.mem_append, List.mem_append, List.mem_append, not_or, not_or, not_or]
    exact ⟨⟨⟨by decide, part hkey⟩, hsign⟩, part htext⟩
  | @during start stop p q hp hq hstart hstop =>
    obtain rfl := Option.some.inj hs
    rw [List.mem_append, List.mem_append, List.mem_cons, not_or, not_or, not_or]
    exact ⟨⟨by decide, number start⟩, by decide, number stop⟩

/-- What a text spells has the shorthand of whatever it agrees with. -/
theorem Spelled.shorthand?_eq {c d : Condition} (hd : d.Spelled) (h : d.agrees c = true) :
    d.shorthand? = c.shorthand? := by
  cases hd with
  | flagIs hkey =>
    cases c <;> simp only [agrees, Bool.false_eq_true, Bool.and_eq_true, beq_iff_eq] at h
    rw [h.1, h.2]
  | resourceIs hkey =>
    cases c <;> simp only [agrees, Bool.false_eq_true, Bool.and_eq_true, beq_iff_eq] at h
    obtain ⟨⟨rfl, rfl⟩, hvalue⟩ := h
    rw [shorthand?, shorthand?, Number.plainText_eq_of_agrees hvalue]
  | variableIs hkey =>
    cases c <;> simp only [agrees, Bool.false_eq_true, Bool.and_eq_true, beq_iff_eq] at h
    obtain ⟨⟨rfl, rfl⟩, hvalue⟩ := h
    next value =>
    cases value with
    | text t => rw [eq_of_beq hvalue]
    | number n => cases hvalue
    | truth b => cases hvalue
  | during =>
    cases c <;> simp only [agrees, Bool.false_eq_true, Bool.and_eq_true] at h
    rw [shorthand?, shorthand?, Number.plainText_eq_of_agrees h.1,
      Number.plainText_eq_of_agrees h.2]

/-! ## Objects -/

mutual

/-- The datum of a condition has no repeated members. -/
theorem settle_toDatum : (c : Condition) → c.toDatum.settle = c.toDatum
  | .flagIs .. | .resourceIs .. | .during .. | .verbatim _ => rfl
  | .variableIs key likeness value => by cases value <;> rfl
  | .allOf members => by
    refine Datum.settle_object (by simp) ?_
    simp only [Datum.settleMembers, Datum.settle, settleItems_toData members]
  | .anyOf members => by
    refine Datum.settle_object (by simp) ?_
    simp only [Datum.settleMembers, Datum.settle, settleItems_toData members]
  | .negation member => by
    refine Datum.settle_object (by simp) ?_
    simp only [Datum.settleMembers, Datum.settle, settle_toDatum member]

theorem settleItems_toData : (cs : List Condition) → Datum.settleItems (toData cs) = toData cs
  | [] => rfl
  | c :: cs => by
    rw [toData, Datum.settleItems, settle_toDatum c, settleItems_toData cs]

end

theorem readsBack_of_asWritten {c : Condition} (h : c.AsWritten)
    (hshort : c.toDatum.hasTooLong = false) : c.toDatum.ReadsBack :=
  ⟨hshort, h, settle_toDatum c⟩

/-- The object of a condition is read as the condition, or kept as its text. -/
theorem ofText_compact_eq_ok {c : Condition} (h : c.AsWritten)
    (hshort : c.toDatum.hasTooLong = false) (hverbatim : ∀ s, c ≠ .verbatim s)
    {r : Option Condition} (hread : ofText c.toDatum.compact = .ok r) :
    r = some c ∨ r = some (.verbatim (String.ofList c.toDatum.compact)) := by
  have hdatum := (readsBack_of_asWritten h hshort).read_compact_eq
  have hsame : ∀ {d}, ofDatum c.toDatum = .ok d → d = c := eq_of_ofDatum_toDatum c
  obtain ⟨ms, hms⟩ := exists_toDatum_eq hverbatim
  rw [hms] at hdatum hsame hread ⊢
  rw [ofText_compact_object hdatum, ofObject_eq] at hread
  obtain ⟨d, hd, rfl⟩ := map_eq_ok_iff.1 hread
  rcases orKept_eq_ok hd with hd | ⟨-, hkept⟩
  · exact .inl (congrArg some (hsame hd))
  · exact .inr (congrArg some (Except.ok.inj hkept).symm)

/-! ## Texts -/

/-- How the text of a condition is chosen. -/
inductive Rendered : Condition → List Char → Prop where
  | verbatim {text : String} : Rendered (.verbatim text) text.toList
  | object {c : Condition} (hverbatim : ∀ s, c ≠ .verbatim s)
      (hshort : c.toDatum.hasTooLong = false) : Rendered c c.toDatum.compact
  | shorthand {c d : Condition} {s : List Char} (hshort : c.toDatum.hasTooLong = false)
      (hs : c.shorthand? = some s) (hread : ofText s = .ok (some d)) (hagrees : d.agrees c = true) :
    Rendered c s

theorem rendered_of_renderChars {c : Condition} {s : List Char} (h : c.renderChars = .ok s) :
    c.Rendered s := by
  unfold renderChars at h
  split at h
  · cases h
    exact .verbatim
  · next hverbatim =>
    obtain ⟨object, hliteral, h⟩ := bind_eq_ok_iff.1 h
    obtain ⟨hshort, rfl⟩ := Datum.literal_eq_ok hliteral
    split at h
    · cases h
      exact .object hverbatim hshort
    · next cs hcs =>
      obtain ⟨r, hr, h⟩ := bind_eq_ok_iff.1 h
      split at h
      · next d =>
        split at h
        · next hagrees =>
          cases h
          exact .shorthand hshort hcs hr hagrees
        · cases h
          exact .object hverbatim hshort
      · cases h
        exact .object hverbatim hshort

theorem short_of_renderChars {c : Condition} {s : List Char} (h : c.renderChars = .ok s) :
    c.toDatum.hasTooLong = false := by
  cases rendered_of_renderChars h with
  | verbatim => rfl
  | object _ hshort => exact hshort
  | shorthand hshort => exact hshort

/-- A shorthand that is read as what agrees with the condition is its text. -/
theorem renderChars_of_shorthand {c d : Condition} {s : List Char}
    (hshort : c.toDatum.hasTooLong = false) (hs : c.shorthand? = some s)
    (hread : ofText s = .ok (some d)) (hagrees : d.agrees c = true) : c.renderChars = .ok s := by
  unfold renderChars
  split
  · cases hs
  · rw [Datum.literal_of_short hshort, ok_bind]
    simp only [hs]
    rw [hread, ok_bind]
    simp only [hagrees, ↓reduceIte, pure_eq_ok]

/-- What the text of a condition is read as has the same text, if it agrees with the condition. -/
theorem renderChars_of_agrees {c d : Condition} {s : List Char} (hwritten : c.AsWritten)
    (hrender : c.renderChars = .ok s) (hread : ofText s = .ok (some d))
    (hagrees : d.agrees c = true) : d.renderChars = .ok s := by
  cases rendered_of_renderChars hrender with
  | @verbatim text =>
    cases d with
    | verbatim t =>
      obtain rfl : t = text := eq_of_beq hagrees
      exact hrender
    | _ => cases hagrees
  | object hverbatim hshort =>
    rcases ofText_compact_eq_ok hwritten hshort hverbatim hread with heq | heq
    · obtain rfl := Option.some.inj heq
      exact hrender
    · obtain rfl := Option.some.inj heq
      exact absurd rfl (ne_verbatim_of_agrees hagrees hverbatim _)
  | shorthand hshort hs _ _ =>
    have hspelled := spelled_of_ofText_shorthand hs hread hagrees
    have hs' := (hspelled.shorthand?_eq hagrees).trans hs
    exact renderChars_of_shorthand (short_of_agrees d c hagrees hshort) hs' hread
      (agrees_left d c hagrees)

/-- Text that was kept is the text that it is read from. -/
theorem toList_of_ofStripped {cs : List Char} {s : String} (h : ofStripped cs = .ok (.verbatim s)) :
    s.toList = cs := by
  rcases ofStripped_cases h with heq | ⟨hverbatim, -⟩
  · rw [Condition.verbatim.inj heq, String.toList_ofList]
  · exact absurd rfl (hverbatim s)

/-- Text that was kept is read as itself. -/
theorem ofText_verbatim {t : List Char} {s : String} (h : ofText t = .ok (some (.verbatim s))) :
    ofText s.toList = .ok (some (.verbatim s)) := by
  rw [toList_of_ofStripped (ofText_eq_ok h), ofText_strip, h]

/-- What begins with a brace and is understood is a document. -/
theorem exists_read_of_ofText {cs : List Char} {c : Condition}
    (h : ofText ('\x7b' :: cs) = .ok (some c)) (hverbatim : ∀ s, c ≠ .verbatim s) :
    ∃ d, Datum.read ('\x7b' :: stripEnd cs) = .ok d := by
  have hstrip : strip ('\x7b' :: cs) = '\x7b' :: stripEnd cs := by
    refine Text.strip_append (a := ['\x7b']) (List.cons_ne_nil _ _) ?_ ?_ cs
    · rintro _ ⟨⟩
      decide
    · rintro _ ⟨⟩
      decide
  have hstripped := ofText_eq_ok h
  rw [hstrip] at hstripped
  unfold ofStripped at hstripped
  simp only at hstripped
  split at hstripped
  · next d hread => exact ⟨d, hread⟩
  · exact absurd (Except.ok.inj hstripped).symm (hverbatim _)
  · cases hstripped

/-! ### Beginnings -/

section

variable {c d : Condition} {a w : List Char}

/-- No object goes on, behind a question mark, from a text that is understood. -/
theorem compact_ne_of_ofText (hread : ofText a = .ok (some d)) (hkept : ∀ t, d ≠ .verbatim t)
    (hshort : c.toDatum.hasTooLong = false) (hverbatim : ∀ t, c ≠ .verbatim t) :
    a ++ '?' :: w ≠ c.toDatum.compact := by
  intro hs
  have hdocument := Datum.read_compact hshort (settle_toDatum c)
  obtain ⟨ms, hms⟩ := exists_toDatum_eq hverbatim
  cases a with
  | nil =>
    rw [hms] at hs
    exact absurd (List.cons.inj hs).1 (by decide)
  | cons brace a =>
    obtain rfl : brace = '\x7b' := by
      rw [hms] at hs
      exact (List.cons.inj hs).1
    obtain ⟨d', hd'⟩ := exists_read_of_ofText hread hkept
    obtain ⟨blanks, hblanks⟩ : stripEnd a <+: a := List.rdropWhile_prefix _ _
    have hmem : '?' ∈ blanks ++ '?' :: w := List.mem_append_right _ List.mem_cons_self
    refine Datum.not_read_append hd' hmem (by decide) c.toDatum.asWritten ?_
    rw [List.cons_append, ← List.append_assoc, hblanks, ← List.cons_append, hs]
    exact hdocument

/-- No shorthand goes on, behind a question mark, from a text that stands for the condition. -/
theorem shorthand?_ne_of_ofText (ha : '?' ∉ a) (hread : ofText a = .ok (some d))
    (hagrees : d.agrees c = true) : c.shorthand? ≠ some (a ++ '?' :: w) := by
  intro hshorthand
  obtain ⟨beginning, first, last, body, hs, hopens, hmark⟩ := exists_opens_of_shorthand? hshorthand
  obtain ⟨a, rfl, -⟩ := exists_append_of_mark hmark hs
  have hverbatim : ∀ t, d ≠ .verbatim t := by
    refine ne_verbatim_of_agrees hagrees ?_
    rintro t rfl
    cases hshorthand
  have hstripped := ofShorthand?_of_ofText hopens hread hverbatim
  have hspelled := spelled_of_ofShorthand? hstripped
  have hquestion : '?' ∉ beginning ++ stripEnd a := by
    rw [List.mem_append, not_or] at ha ⊢
    exact ⟨ha.1, fun hmem => ha.2 ((List.rdropWhile_prefix _ a).subset hmem)⟩
  refine (spelledIn_of_ofShorthand? hstripped).question_not_mem hquestion
    ((hspelled.shorthand?_eq hagrees).trans hshorthand) ?_
  exact List.mem_append_right _ List.mem_cons_self

/-- No text of a condition goes on, behind a question mark, from one that stands for the condition. -/
theorem not_agrees_of_beginning (ha : '?' ∉ a) (hrender : c.renderChars = .ok (a ++ '?' :: w))
    (hread : ofText a = .ok (some d)) : d.agrees c = false := by
  refine Bool.eq_false_iff.2 fun hagrees => ?_
  generalize hs : a ++ '?' :: w = s at hrender
  cases rendered_of_renderChars hrender with
  | @verbatim text =>
    cases d with
    | verbatim t =>
      obtain rfl : t = text := eq_of_beq hagrees
      -- the text that was kept is the beginning, without the question mark
      rw [toList_of_ofStripped (ofText_eq_ok hread)] at hs
      have hmem : '?' ∈ strip a := hs ▸ List.mem_append_right _ List.mem_cons_self
      exact ha ((Text.strip_isInfix a).subset hmem)
    | _ => cases hagrees
  | object hverbatim hshort =>
    exact compact_ne_of_ofText hread (ne_verbatim_of_agrees hagrees hverbatim) hshort hverbatim hs
  | shorthand _ hshorthand _ _ =>
    rw [← hs] at hshorthand
    exact shorthand?_ne_of_ofText ha hread hagrees hshorthand

end

/-! ### Normal form -/

/-- The text of a condition that was read from a text has that text again. -/
theorem renderChars_fixed {t s : List Char} {c : Condition} {r : Option Condition}
    (hc : ofText t = .ok (some c)) (hrender : c.renderChars = .ok s) (hread : ofText s = .ok r) :
    ∃ d, r = some d ∧ d.renderChars = .ok s := by
  have hwritten := asWritten_of_ofText hc
  cases rendered_of_renderChars hrender with
  | @verbatim text =>
    rw [ofText_verbatim hc] at hread
    obtain rfl := Except.ok.inj hread
    exact ⟨_, rfl, hrender⟩
  | object hverbatim hshort =>
    rcases ofText_compact_eq_ok hwritten hshort hverbatim hread with rfl | rfl
    · exact ⟨c, rfl, hrender⟩
    · refine ⟨_, rfl, ?_⟩
      rw [renderChars, String.toList_ofList]
  | shorthand hshort hs hread' hagrees =>
    obtain rfl := Except.ok.inj (hread.symm.trans hread')
    exact ⟨_, rfl, renderChars_of_agrees hwritten hrender hread' hagrees⟩

end Condition

end Gamebook
