import Gamebook.Condition.Holds
import Gamebook.Proofs.ReadText

/-!
# Conditions as text read back

A condition that was read has a text, and the text is read as a condition that agrees with it and
holds in the same states (`rendered_text_reads_back`).

The text is the JSON object of the condition or a shorthand.  The object is read back as it is
(`readsBack_toDatum`, `ofText_compact_toDatum`).  The shorthand is only chosen if it is read as what
agrees with the condition, so it remains to see that reading it never fails (`exists_ofText_eq`).
That could happen only at a number with too many digits: keys and texts have any characters, and a
key with an operator in it moves the place where the number is expected.  But then the rest of the
operator or of the number's own sign stands in front of it, and it is no number at all.

Numbers that agree may differ in kind, `10` and `10.0`.  A condition that a shorthand spells keeps
its verdicts under that (`Spelled.holds_eq`), since numbers are compared by value.

The one limit is in the runtime: an integer with more than `Numeral.maxDigits` digits is not written
(`long_integer_not_rendered`).
-/

namespace Gamebook.Condition

open Text (strip stripEnd dropPrefix? cutAt?)

/-! ## Shorthand -/

theorem ofStripped_of_head {c : Char} (hc : c ≠ '\x7b') (cs : List Char) :
    ofStripped (c :: cs) =
      (ofShorthand? (c :: cs)).map fun r => r.getD (.verbatim (String.ofList (c :: cs))) := by
  unfold ofStripped
  split
  · next heq => exact absurd (List.cons.inj heq).1 hc
  · cases ofShorthand? (c :: cs) <;> rfl

/-- How a form begins: neither end is a blank, and it is not mistaken for an object. -/
structure Opens (beginning : List Char) (first last : Char) : Prop where
  head : beginning.head? = some first
  getLast : beginning.getLast? = some last
  first_blank : Text.isBlank first = false
  last_blank : Text.isBlank last = false
  first_ne : first ≠ '\x7b'

theorem Opens.strip_append {beginning : List Char} {first last : Char}
    (h : Opens beginning first last) (body : List Char) :
    strip (beginning ++ body) = beginning ++ stripEnd body := by
  refine Text.strip_append ?_ ?_ ?_ body
  · rintro rfl
    cases h.head
  · rw [h.head]
    rintro _ ⟨⟩
    exact h.first_blank
  · rw [h.getLast]
    rintro _ ⟨⟩
    exact h.last_blank

/-- Behind the beginning of a form blanks are trimmed at the end only. -/
theorem ofText_append {beginning : List Char} {first last : Char} (h : Opens beginning first last)
    (body : List Char) :
    ofText (beginning ++ body) = (ofShorthand? (beginning ++ stripEnd body)).map fun r =>
      some (r.getD (.verbatim (String.ofList (beginning ++ stripEnd body)))) := by
  unfold ofText
  rw [h.strip_append]
  obtain ⟨cs, rfl⟩ := List.head?_eq_some_iff.1 h.head
  simp only [List.cons_append, List.isEmpty_cons, Bool.false_eq_true, ↓reduceIte]
  rw [ofStripped_of_head h.first_ne]
  cases ofShorthand? (first :: (cs ++ stripEnd body)) <;> rfl

theorem opens_flag : Opens "flag:".toList 'f' ':' :=
  ⟨rfl, rfl, by decide, by decide, by decide⟩

theorem opens_resource : Opens "resource:".toList 'r' ':' :=
  ⟨rfl, rfl, by decide, by decide, by decide⟩

theorem opens_variable : Opens "variable:".toList 'v' ':' :=
  ⟨rfl, rfl, by decide, by decide, by decide⟩

theorem opens_time : Opens "time:".toList 't' ':' :=
  ⟨rfl, rfl, by decide, by decide, by decide⟩

theorem opens_window : Opens "timeWindow:".toList 't' ':' :=
  ⟨rfl, rfl, by decide, by decide, by decide⟩

theorem findSomeM?_skip {ε α β : Type} {f : α → Except ε (Option β)} {a : α} (as : List α)
    (h : f a = .ok none) : (a :: as).findSomeM? f = as.findSomeM? f := by
  rw [List.findSomeM?, h]
  rfl

theorem findSomeM?_of_rest {ε α β : Type} {f : α → Except ε (Option β)} {a : α} {as : List α}
    (h : ∀ x ∈ as, f x = .ok none) : (a :: as).findSomeM? f = f a := by
  have hnone : as.findSomeM? f = .ok none := by
    induction as with
    | nil => rfl
    | cons x xs ih =>
      rw [findSomeM?_skip xs (h x List.mem_cons_self)]
      exact ih fun y hy => h y (List.mem_cons_of_mem _ hy)
  rw [List.findSomeM?]
  cases hfa : f a with
  | error e => rfl
  | ok found =>
    cases found with
    | some b => rfl
    | none => exact hnone

theorem ofShorthand?_time (cs : List Char) :
    ofShorthand? ("time:".toList ++ cs) = ofWindow? cs := by
  unfold ofShorthand? forms
  rw [findSomeM?_of_rest]
  · rfl
  · simp only [List.forall_mem_cons]
    exact ⟨rfl, rfl, rfl, rfl, List.forall_mem_nil _⟩

theorem ofShorthand?_window (cs : List Char) :
    ofShorthand? ("timeWindow:".toList ++ cs) = ofWindow? cs := by
  unfold ofShorthand? forms
  rw [findSomeM?_skip _ (by rfl), findSomeM?_of_rest]
  · rfl
  · simp only [List.forall_mem_cons]
    exact ⟨rfl, rfl, rfl, List.forall_mem_nil _⟩

theorem ofShorthand?_flag (cs : List Char) :
    ofShorthand? ("flag:".toList ++ cs) = .ok (ofFlag? cs) := by
  unfold ofShorthand? forms
  rw [findSomeM?_skip _ (by rfl), findSomeM?_skip _ (by rfl), findSomeM?_of_rest]
  · rfl
  · simp only [List.forall_mem_cons]
    exact ⟨rfl, rfl, List.forall_mem_nil _⟩

theorem ofShorthand?_resource (cs : List Char) :
    ofShorthand? ("resource:".toList ++ cs) = ofResource? cs := by
  unfold ofShorthand? forms
  rw [findSomeM?_skip _ (by rfl), findSomeM?_skip _ (by rfl), findSomeM?_skip _ (by rfl),
    findSomeM?_of_rest]
  · rfl
  · simp only [List.forall_mem_cons]
    exact ⟨rfl, List.forall_mem_nil _⟩

theorem ofShorthand?_variable (cs : List Char) :
    ofShorthand? ("variable:".toList ++ cs) = .ok (ofVariable? cs) := by
  unfold ofShorthand? forms
  rw [findSomeM?_skip _ (by rfl), findSomeM?_skip _ (by rfl), findSomeM?_skip _ (by rfl),
    findSomeM?_skip _ (by rfl), findSomeM?_of_rest]
  · rfl
  · exact List.forall_mem_nil _

theorem endsKey_of_isNumeralChar {c : Char} (h : Number.IsNumeralChar c) : endsKey c = false := by
  rcases h with hdigit | hmem
  · have hne : ∀ d, Numeral.isDigit d = false → c ≠ d := fun d => Numeral.ne_of_isDigit hdigit
    simp only [endsKey, Bool.or_eq_false_iff, decide_eq_false_iff_not]
    exact ⟨⟨⟨hne _ (by decide), hne _ (by decide)⟩, hne _ (by decide)⟩, hne _ (by decide)⟩
  · simp only [List.mem_cons, List.not_mem_nil, or_false] at hmem
    rcases hmem with rfl | rfl | rfl | rfl <;> decide

theorem endsKey_cases {c : Char} (h : endsKey c = true) :
    Numeral.isDigit c = false ∧ Text.isBlank c = false ∧ c ≠ '.' ∧ c ≠ '-' := by
  simp only [endsKey, Bool.or_eq_true, decide_eq_true_eq] at h
  rcases h with ((rfl | rfl) | rfl) | rfl <;> decide

/-- A text that is cut behind an operator leaves the number, or something with an operator in it. -/
theorem eq_or_exists_endsKey {before rest front plain : List Char} {a b : Char}
    (h : before ++ rest = front ++ plain) (hbefore : before.getLast? = some a)
    (ha : endsKey a = true) (hfront : front.getLast? = some b) (hb : endsKey b = true)
    (hplain : ∀ c ∈ plain, endsKey c = false) :
    rest = plain ∨ ∃ c ∈ rest, endsKey c = true := by
  rcases List.append_eq_append_iff.1 h with ⟨more, rfl, rfl⟩ | ⟨more, rfl, rfl⟩
  · by_cases hmore : more = []
    · left
      rw [hmore, List.nil_append]
    · right
      rw [List.getLast?_append_of_ne_nil _ hmore] at hfront
      exact ⟨b, List.mem_append_left _ (List.mem_of_getLast? hfront), hb⟩
  · by_cases hmore : more = []
    · left
      rw [hmore, List.nil_append]
    · rw [List.getLast?_append_of_ne_nil _ hmore] at hbefore
      have hnot := hplain a (List.mem_append_left _ (List.mem_of_getLast? hbefore))
      rw [ha] at hnot
      cases hnot

theorem getLast?_sign (relation : Relation) :
    ∃ c, relation.sign.toList.getLast? = some c ∧ endsKey c = true := by
  cases relation
  · exact ⟨'=', rfl, by decide⟩
  · exact ⟨'=', rfl, by decide⟩
  · exact ⟨'>', rfl, by decide⟩
  · exact ⟨'<', rfl, by decide⟩
  · exact ⟨'=', rfl, by decide⟩

/-- Where a key has operators in it, what follows the first of them is no number. -/
theorem exists_toNumber_of_cutRelation? (key : List Char) (relation : Relation) {value : Number}
    (h : value.isFinite = .ok true) {cut : Relation} {rest : List Char}
    (hcut : cutRelation? ((key ++ relation.sign.toList ++ value.plainText).dropWhile (!endsKey ·)) =
      some (cut, rest)) {p : Number.Parts} (hp : Number.Parts.ofPlain? (strip rest) = some p) :
    ∃ n, p.toNumber = .ok n := by
  have hplain : ∀ c ∈ value.plainText, Number.IsNumeralChar c := fun _ hc =>
    Number.isNumeralChar_of_mem_plainText h hc
  obtain ⟨a, signs, hdrop, hsigns, ha⟩ := cutRelation?_eq_append hcut
  obtain ⟨b, hsign, hb⟩ := getLast?_sign relation
  have hne : signs ≠ [] := by
    rintro rfl
    cases hsigns
  have hfront : (key ++ relation.sign.toList).getLast? = some b := by
    rw [List.getLast?_append_of_ne_nil, hsign]
    intro hnil
    rw [hnil] at hsign
    cases hsign
  have hsplit := List.takeWhile_append_dropWhile (p := (!endsKey ·))
    (l := key ++ relation.sign.toList ++ value.plainText)
  rw [hdrop, ← List.append_assoc] at hsplit
  rcases eq_or_exists_endsKey hsplit (by rwa [List.getLast?_append_of_ne_nil _ hne]) ha hfront hb
    fun c hc => endsKey_of_isNumeralChar (hplain c hc) with rfl | ⟨c, hc, hends⟩
  · rw [Text.strip_of_forall fun c hc => Number.isBlank_of_isNumeralChar (hplain c hc)] at hp
    exact Number.toNumber_ofPlain? h hp
  · obtain ⟨hdigit, hblank, hpoint, hminus⟩ := endsKey_cases hends
    rcases Number.of_mem_of_ofPlain? hp c (Text.mem_strip hblank hc) with hmem | hmem | hmem
    · rw [hdigit] at hmem
      cases hmem
    · exact absurd hmem hpoint
    · exact absurd hmem hminus

/-- The shorthand of a test of a resource is read without a fault. -/
theorem exists_ofResource?_eq (key : List Char) (relation : Relation) {value : Number}
    (h : value.isFinite = .ok true) :
    ∃ r, ofResource? (key ++ relation.sign.toList ++ value.plainText) = .ok r := by
  unfold ofResource?
  dsimp only
  split
  · exact ⟨_, rfl⟩
  · next cut rest hcut =>
    split
    · exact ⟨_, rfl⟩
    · split
      · exact ⟨_, rfl⟩
      · next parts hparts =>
        obtain ⟨n, hn⟩ := exists_toNumber_of_cutRelation? key relation h hcut hparts
        rw [hn]
        exact ⟨_, rfl⟩

/-- The shorthand of a time window is read without a fault. -/
theorem exists_ofWindow?_eq {start stop : Number} (hstart : start.isFinite = .ok true)
    (hstop : stop.isFinite = .ok true) :
    ∃ r, ofWindow? (start.plainText ++ '-' :: stop.plainText) = .ok r := by
  unfold ofWindow?
  split
  · exact ⟨_, rfl⟩
  · next a b hcut =>
    split
    · next p q hp hq =>
      -- a sign inside would leave a hyphen behind the first one
      have hminus : '-' ∉ start.plainText := by
        intro hmem
        obtain ⟨x, y, hsplit, hx⟩ := List.eq_append_cons_of_mem hmem
        rw [hsplit, List.append_assoc, List.cons_append, Text.cutAt?_append hx] at hcut
        cases hcut
        have hbehind : '-' ∈ y ++ '-' :: stop.plainText :=
          List.mem_append_right _ List.mem_cons_self
        rcases Number.of_mem_of_ofDigits? hq _ hbehind with hdigit | hpoint
        · revert hdigit
          decide
        · revert hpoint
          decide
      rw [Text.cutAt?_append hminus] at hcut
      cases hcut
      obtain ⟨m, hm⟩ := Number.toNumber_ofDigits? hp (Number.fits_plainText hstart).1
      obtain ⟨n, hn⟩ := Number.toNumber_ofDigits? hq (Number.fits_plainText hstop).1
      rw [hm, hn]
      exact ⟨_, rfl⟩
    · exact ⟨_, rfl⟩

theorem exists_map_eq {ε α β : Type} {x : Except ε α} (f : α → β) (h : ∃ a, x = .ok a) :
    ∃ b, x.map f = .ok b := by
  obtain ⟨a, rfl⟩ := h
  exact ⟨f a, rfl⟩

/-- Reading a shorthand back does not fail. -/
theorem exists_ofText_eq {c : Condition} (h : c.WellFormed) {cs : List Char}
    (hcs : c.shorthand? = some cs) : ∃ r, ofText cs = .ok r := by
  cases h with
  | flagIs hkey =>
    obtain rfl := Option.some.inj hcs
    rw [List.append_assoc, ofText_append opens_flag, ofShorthand?_flag]
    exact ⟨_, rfl⟩
  | @resourceIs key relation value hkey hvalue =>
    obtain rfl := Option.some.inj hcs
    have hsign : ∀ c ∈ relation.sign.toList, Text.isBlank c = false := by
      cases relation <;>
        simp only [Relation.sign, String.reduceToList, List.forall_mem_cons, List.not_mem_nil,
          false_implies, implies_true, and_true] <;> decide
    have hstrip : stripEnd (key.toList ++ (relation.sign.toList ++ value.plainText)) =
        key.toList ++ (relation.sign.toList ++ value.plainText) := by
      refine Text.stripEnd_append_of_forall _ ?_ ?_
      · cases relation <;> exact List.cons_ne_nil _ _
      · intro c hc
        rcases List.mem_append.1 hc with hc | hc
        · exact hsign c hc
        · exact Number.isBlank_of_isNumeralChar (Number.isNumeralChar_of_mem_plainText hvalue hc)
    have hread := exists_ofResource?_eq key.toList relation hvalue
    rw [List.append_assoc] at hread
    rw [List.append_assoc, List.append_assoc, ofText_append opens_resource, hstrip,
      ofShorthand?_resource]
    exact exists_map_eq _ hread
  | variableIs hkey =>
    obtain rfl := Option.some.inj hcs
    rw [List.append_assoc, List.append_assoc, ofText_append opens_variable, ofShorthand?_variable]
    exact ⟨_, rfl⟩
  | @during start stop hstart hstop =>
    obtain rfl := Option.some.inj hcs
    have hstrip : stripEnd (start.plainText ++ '-' :: stop.plainText) =
        start.plainText ++ '-' :: stop.plainText := by
      refine Text.stripEnd_append_of_forall _ (List.cons_ne_nil _ _) ?_
      refine List.forall_mem_cons.2 ⟨by decide, fun c hc => ?_⟩
      exact Number.isBlank_of_isNumeralChar (Number.isNumeralChar_of_mem_plainText hstop hc)
    rw [List.append_assoc, ofText_append opens_window, hstrip, ofShorthand?_window]
    exact exists_map_eq _ (exists_ofWindow?_eq hstart hstop)
  | allOf h => cases hcs
  | anyOf h => cases hcs
  | negation h => cases hcs
  | verbatim => cases hcs

/-! ## Objects -/

/-- A text that begins with a brace is read as the object that it describes. -/
theorem ofText_compact_object {ms : List (String × Datum)} {d : Datum}
    (h : Datum.read (Datum.object ms).compact = .ok d) :
    ofText (Datum.object ms).compact = (ofObject d (.ok (Datum.object ms).compact)).map some := by
  unfold ofText
  rw [Datum.strip_compact_object]
  obtain ⟨cs, hcs⟩ : ∃ cs, (Datum.object ms).compact = '\x7b' :: cs := ⟨_, rfl⟩
  rw [hcs] at h ⊢
  simp only [List.isEmpty_cons, Bool.false_eq_true, ↓reduceIte, ofStripped, h]

theorem exists_toDatum_eq {c : Condition} (h : ∀ s, c ≠ .verbatim s) :
    ∃ ms, c.toDatum = .object ms := by
  cases c with
  | verbatim s => exact absurd rfl (h s)
  | _ => exact ⟨_, rfl⟩

/-- The datum of a condition that is no verbatim text is read as the condition. -/
theorem ofTextOrObject_toDatum {c : Condition} (h : c.WellFormed)
    (hverbatim : ∀ s, c ≠ .verbatim s) : ofTextOrObject c.toDatum = .ok (some c) := by
  obtain ⟨ms, hms⟩ := exists_toDatum_eq hverbatim
  have hc := ofDatum_toDatum h
  rw [hms] at hc ⊢
  rw [ofTextOrObject, ofObject_eq, hc]
  rfl

/-- The datum of a condition that is no verbatim text is read from its JSON text. -/
theorem ofText_compact_toDatum {c : Condition} (h : c.WellFormed)
    (hvalues : ∀ x ∈ c.values, x.Writable) (hverbatim : ∀ s, c ≠ .verbatim s) :
    ofText c.toDatum.compact = .ok (some c) := by
  obtain ⟨ms, hms⟩ := exists_toDatum_eq hverbatim
  have hread := (readsBack_toDatum h hvalues).read_compact_eq
  have hc := ofDatum_toDatum h
  rw [hms] at hread hc ⊢
  rw [ofText_compact_object hread, ofObject_eq, hc]
  rfl

/-! ## Rendering and reading -/

/-- Where a spelled condition agrees with another, they hold in the same states: only numbers may
differ, and only in kind. -/
theorem Spelled.holds_eq {c d : Condition} (hd : d.Spelled) (h : d.agrees c = true) (s : State) :
    d.holds s = c.holds s := by
  cases hd with
  | flagIs hkey =>
    cases c <;> simp only [agrees, Bool.false_eq_true, Bool.and_eq_true, beq_iff_eq] at h
    rw [h.1, h.2]
  | resourceIs hkey =>
    cases c <;> simp only [agrees, Bool.false_eq_true, Bool.and_eq_true, beq_iff_eq] at h
    obtain ⟨⟨rfl, rfl⟩, hvalue⟩ := h
    exact Number.holds_eq_of_agrees _ _ hvalue
  | variableIs hkey =>
    cases c <;> simp only [agrees, Bool.false_eq_true, Bool.and_eq_true, beq_iff_eq] at h
    obtain ⟨⟨rfl, rfl⟩, hvalue⟩ := h
    next value =>
    cases value with
    | text t => rw [eq_of_beq hvalue]
    | number n => cases hvalue
    | truth b => cases hvalue
  | during =>
    cases c <;> simp only [agrees, Bool.false_eq_true, Bool.and_eq_true] at h
    have hstart := Number.place?_eq_of_agrees h.1
    have hstop := Number.place?_eq_of_agrees h.2
    simp only [holds, Number.le, hstart, hstop]

/-- They are evaluated alike, too: a shorthand compares variables with texts only. -/
theorem Spelled.evaluate_eq {c d : Condition} (hd : d.Spelled) (h : d.agrees c = true) (s : State) :
    d.evaluate s = c.evaluate s := by
  have hholds := hd.holds_eq h s
  cases hd with
  | variableIs hkey =>
    cases c <;> simp only [agrees, Bool.false_eq_true, Bool.and_eq_true, beq_iff_eq] at h
    obtain ⟨⟨rfl, rfl⟩, hvalue⟩ := h
    next value =>
    cases value with
    | text t => rw [eq_of_beq hvalue]
    | number n => cases hvalue
    | truth b => cases hvalue
  | _ =>
    cases c <;> simp only [agrees, Bool.false_eq_true] at h
    exact congrArg Except.ok hholds

/-- A condition is written as its datum, or in a shorthand that is read as what agrees with it. -/
theorem renderChars_cases {c : Condition} (h : c.WellFormed)
    (hshort : c.toDatum.hasTooLong = false) (hverbatim : ∀ s, c ≠ .verbatim s) :
    c.renderChars = .ok c.toDatum.compact ∨
      ∃ cs d, c.shorthand? = some cs ∧ c.renderChars = .ok cs ∧ ofText cs = .ok (some d) ∧
        d.agrees c = true := by
  unfold renderChars
  split
  · next s => exact absurd rfl (hverbatim s)
  · rw [Datum.literal_of_short hshort, ok_bind]
    cases hcs : c.shorthand? with
    | none => exact .inl rfl
    | some cs =>
      obtain ⟨r, hr⟩ := exists_ofText_eq h hcs
      simp only
      rw [hr, ok_bind]
      cases r with
      | none => exact .inl rfl
      | some d =>
        cases hagrees : d.agrees c with
        | false =>
          left
          simp only [hagrees, Bool.false_eq_true, ↓reduceIte, pure_eq_ok]
        | true =>
          right
          refine ⟨cs, d, rfl, ?_, hr, hagrees⟩
          simp only [hagrees, ↓reduceIte, pure_eq_ok]

/-- What begins like a form is read as what the form spells, unless it is not understood. -/
theorem ofShorthand?_of_ofText {beginning : List Char} {first last : Char}
    (hopens : Opens beginning first last) {body : List Char} {d : Condition}
    (h : ofText (beginning ++ body) = .ok (some d)) (hverbatim : ∀ s, d ≠ .verbatim s) :
    ofShorthand? (beginning ++ stripEnd body) = .ok (some d) := by
  rw [ofText_append hopens] at h
  obtain ⟨r, hr, heq⟩ := map_eq_ok_iff.1 h
  cases r with
  | none => exact absurd (Option.some.inj heq).symm (hverbatim _)
  | some d' => exact hr.trans (congrArg Except.ok heq)

/-- A shorthand is a form with something behind its beginning, in which there is no question mark. -/
theorem exists_opens_of_shorthand? {c : Condition} {s : List Char} (h : c.shorthand? = some s) :
    ∃ beginning first last body, s = beginning ++ body ∧ Opens beginning first last ∧
      '?' ∉ beginning := by
  cases c with
  | flagIs key value =>
    obtain rfl := Option.some.inj h
    exact ⟨_, _, _, _, List.append_assoc _ _ _, opens_flag, by decide⟩
  | resourceIs key relation value =>
    obtain rfl := Option.some.inj h
    rw [List.append_assoc, List.append_assoc]
    exact ⟨_, _, _, _, rfl, opens_resource, by decide⟩
  | variableIs key likeness value =>
    obtain rfl := Option.some.inj h
    rw [List.append_assoc, List.append_assoc]
    exact ⟨_, _, _, _, rfl, opens_variable, by decide⟩
  | during start stop =>
    obtain rfl := Option.some.inj h
    exact ⟨_, _, _, _, List.append_assoc _ _ _, opens_window, by decide⟩
  | _ => cases h

theorem ne_verbatim_of_agrees {c d : Condition} (h : d.agrees c = true)
    (hc : ∀ s, c ≠ .verbatim s) (s : String) : d ≠ .verbatim s := by
  rintro rfl
  cases c with
  | verbatim t => exact hc t rfl
  | _ => cases h

theorem spelled_of_ofText_shorthand {c d : Condition} {cs : List Char}
    (hcs : c.shorthand? = some cs) (h : ofText cs = .ok (some d)) (hagrees : d.agrees c = true) :
    d.Spelled := by
  obtain ⟨beginning, first, last, body, rfl, hopens, -⟩ := exists_opens_of_shorthand? hcs
  refine spelled_of_ofShorthand? (ofShorthand?_of_ofText hopens h ?_)
  refine ne_verbatim_of_agrees hagrees ?_
  rintro s rfl
  cases hcs

/-- The text of a condition is read as a condition that agrees with it and holds in the same
states. -/
theorem exists_ofText_renderChars {c : Condition} (h : c.WellFormed)
    (hvalues : ∀ x ∈ c.values, x.Writable) (hverbatim : ∀ s, c ≠ .verbatim s) :
    ∃ cs d, c.renderChars = .ok cs ∧ ofText cs = .ok (some d) ∧ d.agrees c = true ∧
      ∀ s, d.holds s = c.holds s := by
  rcases renderChars_cases h (readsBack_toDatum h hvalues).short hverbatim with
    hobject | ⟨cs, d, hcs, hrender, hread, hagrees⟩
  · have hread := ofText_compact_toDatum h hvalues hverbatim
    exact ⟨_, c, hobject, hread, agrees_self h hvalues, fun _ => rfl⟩
  · have hspelled := spelled_of_ofText_shorthand hcs hread hagrees
    exact ⟨cs, d, hrender, hread, hagrees, hspelled.holds_eq hagrees⟩

/-- A condition has a text if its numbers can be written. -/
theorem exists_renderChars_eq {c : Condition} (h : c.WellFormed)
    (hshort : c.toDatum.hasTooLong = false) : ∃ cs, c.renderChars = .ok cs := by
  by_cases hverbatim : ∀ s, c ≠ .verbatim s
  · rcases renderChars_cases h hshort hverbatim with hobject | ⟨cs, -, -, hcs, -⟩
    · exact ⟨_, hobject⟩
    · exact ⟨cs, hcs⟩
  · obtain ⟨s, hs⟩ := not_forall.1 hverbatim
    obtain rfl := not_not.1 hs
    exact ⟨s.toList, rfl⟩

/-- What is read has the form of a condition, and verbatim text is read as itself. -/
theorem ofTextOrObject_cases {v : Datum} {c : Condition} (hsettled : v.settle = v)
    (h : ofTextOrObject v = .ok (some c)) :
    (∃ s, c = .verbatim s ∧ ofText s.toList = .ok (some c)) ∨ (∀ s, c ≠ .verbatim s) ∧
      ((∀ n ∈ c.numbers, n.isFinite = .ok true) → c.WellFormed) := by
  cases v with
  | text t =>
    rcases ofStripped_cases (ofText_eq_ok h) with rfl | hc
    · left
      refine ⟨_, rfl, ?_⟩
      rw [String.toList_ofList, ofText_strip]
      exact h
    · exact .inr hc
  | object ms =>
    obtain ⟨c', hc', heq⟩ := map_eq_ok_iff.1 h
    obtain rfl := Option.some.inj heq
    rw [ofObject_eq] at hc'
    rcases orKept_eq_ok hc' with hd | ⟨hrefused, hkept⟩
    · exact .inr ⟨ne_verbatim_of_ofDatum hd, fun _ => wellFormed_of_ofDatum _ hd⟩
    · left
      obtain ⟨cs, hliteral, rfl⟩ := map_eq_ok_iff.1 hkept
      refine ⟨_, rfl, ?_⟩
      obtain ⟨hlong, rfl⟩ := Datum.literal_eq_ok hliteral
      have hread := Datum.read_compact hlong hsettled
      rw [← verdict_ofDatum_asWritten] at hrefused
      rw [String.toList_ofList, ofText_compact_object hread, ofObject_eq,
        orKept_of_refused hrefused]
      rfl
  | null => cases h
  | truth b => cases h
  | number n => cases h
  | list items => cases h

/-- The text of a condition that was read is read as a condition that agrees with it and holds in the
same states.  Numbers must be in range, and the scalars that variables are compared with must have
a notation. -/
theorem rendered_text_reads_back {v : Datum} {c : Condition} (hsettled : v.settle = v)
    (hread : ofTextOrObject v = .ok (some c)) (hfinite : ∀ n ∈ c.numbers, n.isFinite = .ok true)
    (hvalues : ∀ x ∈ c.values, x.Writable) :
    ∃ text d, c.render = .ok text ∧ ofTextOrObject (.text text) = .ok (some d) ∧
      d.agrees c = true ∧ ∀ s, d.holds s = c.holds s := by
  rcases ofTextOrObject_cases hsettled hread with ⟨s, rfl, htext⟩ | ⟨hverbatim, hwell⟩
  · refine ⟨s, .verbatim s, ?_, htext, beq_self_eq_true s, fun _ => rfl⟩
    show Except.ok (String.ofList s.toList) = _
    rw [String.ofList_toList]
  · obtain ⟨cs, d, hrender, htext, hagrees, hholds⟩ :=
      exists_ofText_renderChars (hwell hfinite) hvalues hverbatim
    refine ⟨String.ofList cs, d, ?_, ?_, hagrees, hholds⟩
    · rw [render, hrender]
      rfl
    · rw [ofTextOrObject, String.toList_ofList, htext]

/-- A condition whose parts are easily mistaken: a negative number, a key with an operator in it, a
number where the shorthand spells texts, and text that looks like a condition. -/
def entangled : Condition :=
  .allOf [.resourceIs "gold" .atLeast (.int (-12)),
    .negation (.variableIs "a=b" .containing (.number (.int 3))), .verbatim "flag:=?"]

theorem rendered_text_reads_back_entangled :
    entangled.toDatum.settle = entangled.toDatum ∧
    ofTextOrObject entangled.toDatum = .ok (some entangled) ∧
    (∀ n ∈ entangled.numbers, n.isFinite = .ok true) ∧ (∀ x ∈ entangled.values, x.Writable) ∧
    ∃ text d, entangled.render = .ok text ∧ ofTextOrObject (.text text) = .ok (some d) ∧
      d.agrees entangled = true ∧ ∀ s, d.holds s = entangled.holds s := by
  have hgold : (Number.int (-12)).isFinite = .ok true := by decide +kernel
  have hthree : (Number.int 3).isFinite = .ok true := by decide +kernel
  have hfinite : ∀ n ∈ entangled.numbers, n.isFinite = .ok true := by
    intro n hn
    rw [List.mem_singleton.1 hn]
    exact hgold
  have hvalues : ∀ x ∈ entangled.values, x.Writable := by
    intro x hx
    rw [List.mem_singleton.1 hx]
    exact ⟨Number.isTooLong_of_isFinite hthree, Number.place?_ne_none_of_isFinite hthree⟩
  have hwell : entangled.WellFormed := by
    refine .allOf ?_
    simp only [List.forall_mem_cons]
    exact ⟨.resourceIs (by decide) hgold, .negation (.variableIs (by decide)), .verbatim,
      List.forall_mem_nil _⟩
  have hsettled := (readsBack_toDatum hwell hvalues).settled
  have hread := ofTextOrObject_toDatum hwell nofun
  exact ⟨hsettled, hread, hfinite, hvalues,
    rendered_text_reads_back hsettled hread hfinite hvalues⟩

/-- A variable that is compared with an integer of more digits than are written. -/
def longInteger : Condition :=
  .variableIs "k" .equal (.number (.int (10 ^ Numeral.maxDigits)))

/-- An integer with too many digits is read, but it cannot be written. -/
theorem long_integer_not_rendered :
    longInteger.toDatum.settle = longInteger.toDatum ∧
    ofTextOrObject longInteger.toDatum = .ok (some longInteger) ∧ longInteger.numbers = [] ∧
    (∀ n, Scalar.number n ∈ longInteger.values → n.place? ≠ none) ∧
    longInteger.render = .error .tooLong := by
  have hlong := Number.isTooLong_ten_pow (Nat.le_refl Numeral.maxDigits)
  unfold longInteger
  generalize (10 : Int) ^ Numeral.maxDigits = n at hlong ⊢
  refine ⟨rfl, ?_, rfl, ?_, ?_⟩
  · exact ofTextOrObject_toDatum (.variableIs (by decide)) nofun
  · intro m hm
    obtain rfl := Scalar.number.inj (List.mem_singleton.1 hm)
    exact nofun
  · have hdatum : (toDatum (.variableIs "k" .equal (.number (.int n)))).hasTooLong = true := by
      simp [toDatum, Datum.hasTooLong, Datum.memberTooLong, Scalar.toDatum, hlong]
    unfold render renderChars
    simp only
    rw [Datum.literal_of_tooLong hdatum]
    rfl

end Gamebook.Condition
