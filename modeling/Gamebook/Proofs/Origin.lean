import Gamebook.Proofs.LongRun
import Gamebook.Proofs.ReadText

/-!
# What is read from texts

A shorthand takes its keys and texts from the text that it is read from, and its numbers are notations in
it (`Condition.spelledIn_of_ofShorthand?`, `Effect.spelledIn_of_ofShorthand?`).  A tagged object takes
its numbers and scalars from the data in it.  So a property that data have if the numbers in them have
it, and that numbers have which are written in texts, is one of whatever is read
(`Datum.Pervasive.condition_of_ofText`, `Datum.Pervasive.effect_of_ofText`).

One such property is to hold no other undefined number than the one that documents write
(`Datum.pervasive_asWritten`), another one to hold no number that is too long to be written
(`Datum.pervasive_short`).  What has the first one is written as a datum that reads back as it is.
-/

namespace Gamebook

open Text (strip cutAt? dropPrefix?)

/-! ## Numbers -/

namespace Number

theorem asWritten_ofGrains (negative : Bool) (grains : Nat) :
    (Number.float (.ofGrains negative grains)).asWritten = .float (.ofGrains negative grains) := by
  unfold Binary64.ofGrains
  split <;> rfl

theorem asWritten_ofDecimal (negative : Bool) (coefficient : Nat) (exponent : Int) :
    (Number.float (.ofDecimal negative coefficient exponent)).asWritten =
      .float (.ofDecimal negative coefficient exponent) := by
  unfold Binary64.ofDecimal
  split
  · rfl
  split
  · rfl
  split
  · rfl
  split
  · exact asWritten_ofGrains _ _
  · exact asWritten_ofGrains _ _

/-- A decimal denotes no undefined number. -/
theorem Parts.asWritten_of_toNumber {p : Parts} {n : Number} (h : p.toNumber = .ok n) :
    n.asWritten = n := by
  unfold toNumber at h
  split at h
  · obtain ⟨k, -, rfl⟩ := map_eq_ok_iff.1 h
    rfl
  · cases h
    exact asWritten_ofDecimal _ _ _

/-- A notation that is read has no more digits than are written, and so has its number. -/
theorem Parts.isTooLong_of_toNumber {p : Parts} {cs : List Char} {n : Number} (hin : p.WholeIn cs)
    (h : p.toNumber = .ok n) : n.isTooLong = false := by
  unfold toNumber toInt at h
  split at h
  · obtain ⟨k, hk, rfl⟩ := map_eq_ok_iff.1 h
    split at hk
    · cases hk
    · next hlength =>
      cases hk
      refine decide_eq_false (Nat.not_lt.2 (Numeral.length_digits_le (by decide) ?_))
      rw [natAbs_signed]
      exact Nat.lt_of_lt_of_le (Numeral.value_lt hin.digits)
        (Nat.pow_le_pow_right (by decide) (Nat.le_of_not_lt hlength))
  · cases h
    rfl

end Number

/-! ## Pervasive properties -/

namespace Datum

/-- A property that data have exactly if their parts have it, and that numbers have which are in range or
written in texts. -/
structure Pervasive (P : Datum → Prop) : Prop where
  text (s : String) : P (.text s)
  word : ∀ w ∈ Reader.words, P w.2
  finite {n : Number} (h : n.isFinite = .ok true) : P (.number n)
  written {p : Number.Parts} {cs : List Char} {n : Number} (hin : p.WholeIn cs)
    (h : p.toNumber = .ok n) : P (.number n)
  list {items : List Datum} : P (.list items) ↔ ∀ d ∈ items, P d
  object {members : List (String × Datum)} : P (.object members) ↔ ∀ m ∈ members, P m.2

namespace Pervasive

variable {P : Datum → Prop} {ms : List (String × Datum)} {d : Datum} {cs : List Char}

theorem null (hP : Pervasive P) : P .null :=
  hP.word ("null".toList, .null) (by simp [Reader.words])

theorem truth (hP : Pervasive P) (b : Bool) : P (.truth b) := by
  cases b with
  | true => exact hP.word ("true".toList, .truth true) (by simp [Reader.words])
  | false => exact hP.word ("false".toList, .truth false) (by simp [Reader.words])

theorem member (hP : Pervasive P) {name : String} (h : P (.object ms))
    (hd : Datum.member? name ms = some d) : P d :=
  hP.object.1 h _ (Tagged.mem_of_member? hd)

mutual

theorem settle (hP : Pervasive P) : (d : Datum) → P d → P d.settle
  | .null, h | .truth _, h | .number _, h | .text _, h => h
  | .list items, h => hP.list.2 (settleItems hP items (hP.list.1 h))
  | .object members, h => by
    refine hP.object.2 fun m hm => ?_
    exact settleMembers hP members (hP.object.1 h) m (mem_of_mem_mergeEntries hm)

theorem settleItems (hP : Pervasive P) : (ds : List Datum) → (∀ d ∈ ds, P d) →
    ∀ d ∈ Datum.settleItems ds, P d
  | [], _ => List.forall_mem_nil _
  | d :: ds, h => by
    obtain ⟨hd, hds⟩ := List.forall_mem_cons.1 h
    exact List.forall_mem_cons.2 ⟨settle hP d hd, settleItems hP ds hds⟩

theorem settleMembers (hP : Pervasive P) : (ms : List (String × Datum)) → (∀ m ∈ ms, P m.2) →
    ∀ m ∈ Datum.settleMembers ms, P m.2
  | [], _ => List.forall_mem_nil _
  | (k, d) :: ms, h => by
    obtain ⟨hd, hms⟩ := List.forall_mem_cons.1 h
    exact List.forall_mem_cons.2 ⟨settle hP d hd, settleMembers hP ms hms⟩

end

theorem inherited (hP : Pervasive P) (text : List Char) : Reader.Inherited text P where
  word := hP.word
  number := hP.written
  text := hP.text
  list := hP.list.2
  object := hP.object.2

/-- What is read as a document has the property. -/
theorem of_readWritten (hP : Pervasive P) (h : readWritten cs = .ok d) : P d := by
  have hall := Reader.gives_readAll (hP.inherited cs)
  unfold readWritten at h
  split at h
  · next hd =>
    cases h
    rw [hd] at hall
    exact hall
  · cases h
  · cases h

theorem of_read (hP : Pervasive P) (h : read cs = .ok d) : P d := by
  obtain ⟨d', hread, rfl⟩ := map_eq_ok_iff.1 h
  exact hP.settle d' (hP.of_readWritten hread)

theorem number (hP : Pervasive P) {tag field : String} {n : Number}
    (h : Tagged.number tag field ms = .ok n) : P (.number n) :=
  hP.finite (Tagged.isFinite_of_number h)

theorem scalar (hP : Pervasive P) {tag field : String} {x : Scalar} (hms : P (.object ms))
    (h : Tagged.scalar tag field ms = .ok x) : P x.toDatum := by
  unfold Tagged.scalar at h
  split at h
  · cases h
    exact hP.text ""
  · cases h
    exact hP.text ""
  · next d _ hd =>
    have hmember := hP.member hms hd
    cases d <;> cases h
    all_goals exact hmember

end Pervasive

end Datum

/-! ## Conditions -/

namespace Condition

/-- What a shorthand spells: keys and texts are parts of the text, and numbers have a notation. -/
inductive SpelledIn (cs : List Char) : Condition → Prop where
  | flagIs {key : String} {value : Bool} (hkey : key.toList <:+: cs) :
    SpelledIn cs (.flagIs key value)
  | resourceIs {key : String} {relation : Relation} {value : Number} {p : Number.Parts}
      (hkey : key.toList <:+: cs) (hin : p.WholeIn cs) (hvalue : p.toNumber = .ok value) :
    SpelledIn cs (.resourceIs key relation value)
  | variableIs {key : String} {likeness : Likeness} {text : String} (hkey : key.toList <:+: cs)
      (htext : text.toList <:+: cs) : SpelledIn cs (.variableIs key likeness (.text text))
  | during {start stop : Number} {p q : Number.Parts} (hp : p.WholeIn cs) (hq : q.WholeIn cs)
      (hstart : p.toNumber = .ok start) (hstop : q.toNumber = .ok stop) :
    SpelledIn cs (.during start stop)

theorem SpelledIn.mono {as bs : List Char} {c : Condition} (h : c.SpelledIn as) (hab : as <:+: bs) :
    c.SpelledIn bs := by
  cases h with
  | flagIs hkey => exact .flagIs (hkey.trans hab)
  | resourceIs hkey hin hvalue => exact .resourceIs (hkey.trans hab) (hin.mono hab) hvalue
  | variableIs hkey htext => exact .variableIs (hkey.trans hab) (htext.trans hab)
  | during hp hq hstart hstop => exact .during (hp.mono hab) (hq.mono hab) hstart hstop

/-- A key without the blanks around it is a part of the text. -/
theorem toList_ofList_strip_isInfix {key cs : List Char} (h : key <:+: cs) :
    (String.ofList (strip key)).toList <:+: cs := by
  rw [String.toList_ofList]
  exact (Text.strip_isInfix key).trans h

theorem isInfix_of_cutAssignment? {cs line : List Char} {key : String}
    (h : cutAssignment? cs = some (key, line)) : key.toList <:+: cs ∧ line <:+: cs := by
  unfold cutAssignment? at h
  split at h
  · cases h
  · next hcut =>
    obtain ⟨hkey, hline⟩ := Text.cutAt?_isInfix hcut
    obtain ⟨-, heq⟩ := Option.ite_none_left_eq_some.1 h
    cases heq
    exact ⟨toList_ofList_strip_isInfix hkey, hline⟩

theorem spelledIn_of_ofWindow? {cs : List Char} {c : Condition} (h : ofWindow? cs = .ok (some c)) :
    c.SpelledIn cs := by
  unfold ofWindow? at h
  split at h
  · cases h
  · next hcut =>
    obtain ⟨hfirst, hlast⟩ := Text.cutAt?_isInfix hcut
    split at h
    · next hp hq =>
      obtain ⟨start, hstart, h⟩ := bind_eq_ok_iff.1 h
      obtain ⟨stop, hstop, h⟩ := bind_eq_ok_iff.1 h
      cases h
      exact .during ((Number.Parts.wholeIn_of_ofDigits? hp).mono hfirst)
        ((Number.Parts.wholeIn_of_ofDigits? hq).mono hlast) hstart hstop
    · cases h

theorem spelledIn_of_ofResource? {cs : List Char} {c : Condition}
    (h : ofResource? cs = .ok (some c)) : c.SpelledIn cs := by
  unfold ofResource? at h
  dsimp only at h
  split at h
  · cases h
  · next relation rest hcut =>
    split at h
    · cases h
    · split at h
      · cases h
      · next hp =>
        obtain ⟨value, hvalue, h⟩ := bind_eq_ok_iff.1 h
        obtain ⟨-, heq⟩ := Option.ite_none_left_eq_some.1 (Except.ok.inj h)
        cases heq
        have hkey := (List.takeWhile_prefix (l := cs) (!endsKey ·)).isInfix
        have hrest := (cutRelation?_suffix hcut).trans (List.dropWhile_suffix _)
        have hin := (Number.Parts.wholeIn_of_ofPlain? hp).mono
          ((Text.strip_isInfix rest).trans hrest.isInfix)
        exact .resourceIs (toList_ofList_strip_isInfix hkey) hin hvalue

theorem cutLikeness?_isSuffix {cs line : List Char} {likeness : Likeness}
    (h : cutLikeness? cs = some (likeness, line)) : line <:+ cs := by
  unfold cutLikeness? at h
  split at h
  · cases h
    exact List.suffix_append ['=', '='] _
  · cases h
    exact List.suffix_append ['='] _
  · cases h
    exact List.suffix_append ['!', '='] _
  · obtain ⟨line', hdrop, heq⟩ := Option.map_eq_some_iff.1 h
    cases heq
    rw [Text.eq_append_of_dropPrefix? hdrop]
    exact List.suffix_append ('!' :: "contains".toList) _
  · cases h

theorem lastContaining?_eq_some {cs key line : List Char}
    (h : lastContaining? cs = some (key, line)) : key <+: cs ∧ line <:+ cs := by
  induction cs generalizing key with
  | nil => cases h
  | cons c cs ih =>
    unfold lastContaining? at h
    obtain ⟨-, h⟩ := Option.ite_none_left_eq_some.1 h
    split at h
    · next key' line' hlast =>
      cases h
      obtain ⟨hkey, hline⟩ := ih hlast
      exact ⟨List.cons_prefix_cons.2 ⟨rfl, hkey⟩, hline.trans (List.suffix_cons _ _)⟩
    · split at h
      · next line' hdrop =>
        obtain ⟨-, heq⟩ := Option.ite_none_right_eq_some.1 h
        cases heq
        rw [Text.eq_append_of_dropPrefix? hdrop]
        exact ⟨List.nil_prefix, List.suffix_append _ _⟩
      · cases h

theorem cutVariable?_eq_some {cs key line : List Char} {likeness : Likeness}
    (h : cutVariable? cs = some (key, likeness, line)) : key <:+: cs ∧ line <:+: cs := by
  unfold cutVariable? at h
  split at h
  · cases h
  · next c rest =>
    have hcontaining : ∀ r, (lastContaining? rest).map
        (fun r => (c :: r.1, Likeness.containing, r.2)) = some r →
        r.1 <:+: c :: rest ∧ r.2.2 <:+: c :: rest := by
      intro r hr
      obtain ⟨⟨key, line⟩, hlast, rfl⟩ := Option.map_eq_some_iff.1 hr
      obtain ⟨hkey, hline⟩ := lastContaining?_eq_some hlast
      exact ⟨(List.cons_prefix_cons.2 ⟨rfl, hkey⟩).isInfix,
        (hline.trans (List.suffix_cons _ _)).isInfix⟩
    obtain ⟨-, h⟩ := Option.ite_none_left_eq_some.1 h
    dsimp only at h
    split at h
    · next hcut =>
      split at h
      · cases h
        have hkey := List.takeWhile_prefix (l := rest) (!endsKey ·)
        have hline := (cutLikeness?_isSuffix hcut).trans (List.dropWhile_suffix _)
        exact ⟨(List.cons_prefix_cons.2 ⟨rfl, hkey⟩).isInfix,
          (hline.trans (List.suffix_cons _ _)).isInfix⟩
      · exact hcontaining _ h
    · exact hcontaining _ h

theorem spelledIn_of_ofVariable? {cs : List Char} {c : Condition} (h : ofVariable? cs = some c) :
    c.SpelledIn cs := by
  unfold ofVariable? at h
  split at h
  · cases h
  · next hcut =>
    obtain ⟨hkey, hline⟩ := cutVariable?_eq_some hcut
    obtain ⟨-, heq⟩ := Option.ite_none_left_eq_some.1 h
    cases heq
    refine .variableIs (toList_ofList_strip_isInfix hkey) ?_
    rwa [String.toList_ofList]

theorem spelledIn_of_ofShorthand? {cs : List Char} {c : Condition}
    (h : ofShorthand? cs = .ok (some c)) : c.SpelledIn cs := by
  obtain ⟨form, hform, hread⟩ := exists_of_findSomeM? h
  split at hread
  · next rest hrest =>
    refine SpelledIn.mono ?_ (Text.dropPrefix?_isInfix hrest)
    simp only [forms, List.mem_cons, List.not_mem_nil, or_false] at hform
    rcases hform with rfl | rfl | rfl | rfl | rfl
    · exact spelledIn_of_ofWindow? hread
    · exact spelledIn_of_ofWindow? hread
    · obtain ⟨⟨key, line⟩, hcut, rfl⟩ := Option.map_eq_some_iff.1 (Except.ok.inj hread)
      exact .flagIs (isInfix_of_cutAssignment? hcut).1
    · exact spelledIn_of_ofResource? hread
    · exact spelledIn_of_ofVariable? (Except.ok.inj hread)
  · cases hread

end Condition

namespace Datum.Pervasive

variable {P : Datum → Prop} {cs : List Char}

theorem condition_of_spelledIn (hP : Pervasive P) {c : Condition} (h : c.SpelledIn cs) :
    P c.toDatum := by
  cases h with
  | flagIs hkey => simp [Condition.toDatum, hP.object, hP.text, hP.truth]
  | resourceIs hkey hin hvalue =>
    simp [Condition.toDatum, hP.object, hP.text, hP.written hin hvalue]
  | variableIs hkey htext => simp [Condition.toDatum, hP.object, hP.text, Scalar.toDatum]
  | during hp hq hstart hstop =>
    simp [Condition.toDatum, hP.object, hP.text, hP.written hp hstart, hP.written hq hstop]

theorem condition_toData (hP : Pervasive P) {cs : List Condition} :
    P (.list (Condition.toData cs)) ↔ ∀ c ∈ cs, P c.toDatum := by
  rw [hP.list]
  induction cs with
  | nil => simp [Condition.toData]
  | cons c cs ih => rw [Condition.toData, List.forall_mem_cons, List.forall_mem_cons, ih]

mutual

/-- The condition that a datum describes is written with numbers and scalars of the datum. -/
theorem condition_of_ofDatum (hP : Pervasive P) : (d : Datum) → P d → {c : Condition} →
    Condition.ofDatum d = .ok c → P c.toDatum
  | .text s, hd, c, h => by
    cases h
    exact hP.text _
  | .object ms, hms, c, h => by
    rw [Condition.ofDatum] at h
    split at h
    · obtain ⟨key, -, h⟩ := bind_eq_ok_iff.1 h
      obtain ⟨value, -, h⟩ := bind_eq_ok_iff.1 h
      cases h
      simp [Condition.toDatum, hP.object, hP.text, hP.truth]
    · obtain ⟨relation, -, h⟩ := bind_eq_ok_iff.1 h
      obtain ⟨key, -, h⟩ := bind_eq_ok_iff.1 h
      obtain ⟨value, hvalue, h⟩ := bind_eq_ok_iff.1 h
      cases h
      simp [Condition.toDatum, hP.object, hP.text, hP.number hvalue]
    · obtain ⟨likeness, -, h⟩ := bind_eq_ok_iff.1 h
      obtain ⟨key, -, h⟩ := bind_eq_ok_iff.1 h
      obtain ⟨value, hvalue, h⟩ := bind_eq_ok_iff.1 h
      cases h
      simp [Condition.toDatum, hP.object, hP.text, hP.scalar hms hvalue]
    · obtain ⟨start, hstart, h⟩ := bind_eq_ok_iff.1 h
      obtain ⟨stop, hstop, h⟩ := bind_eq_ok_iff.1 h
      cases h
      simp [Condition.toDatum, hP.object, hP.text, hP.number hstart, hP.number hstop]
    · obtain ⟨members, hmembers, h⟩ := bind_eq_ok_iff.1 h
      cases h
      have hmembers := conditions_of_membersOf hP ms (hP.object.1 hms) hmembers
      simpa [Condition.toDatum, hP.object, hP.text, hP.condition_toData] using hmembers
    · obtain ⟨members, hmembers, h⟩ := bind_eq_ok_iff.1 h
      cases h
      have hmembers := conditions_of_membersOf hP ms (hP.object.1 hms) hmembers
      simpa [Condition.toDatum, hP.object, hP.text, hP.condition_toData] using hmembers
    · obtain ⟨member, hmember, h⟩ := bind_eq_ok_iff.1 h
      cases h
      have hmember := condition_of_memberOf hP ms (hP.object.1 hms) hmember
      simp [Condition.toDatum, hP.object, hP.text, hmember]
    · cases h
  | .null, _, c, h | .truth _, _, c, h | .number _, _, c, h | .list _, _, c, h => by cases h

theorem conditions_of_ofItems (hP : Pervasive P) : (ds : List Datum) → (∀ d ∈ ds, P d) →
    {cs : List Condition} → Condition.ofItems ds = .ok cs → ∀ c ∈ cs, P c.toDatum
  | [], _, cs, h => by
    cases h
    exact List.forall_mem_nil _
  | d :: ds, hds, cs, h => by
    obtain ⟨hd, hds⟩ := List.forall_mem_cons.1 hds
    obtain ⟨c, hc, h⟩ := bind_eq_ok_iff.1 h
    obtain ⟨cs', hcs, h⟩ := bind_eq_ok_iff.1 h
    cases h
    exact List.forall_mem_cons.2
      ⟨condition_of_ofDatum hP d hd hc, conditions_of_ofItems hP ds hds hcs⟩

theorem conditions_of_membersOf (hP : Pervasive P) {tag : String} : (ms : List (String × Datum)) →
    (∀ m ∈ ms, P m.2) → {cs : List Condition} → Condition.membersOf tag ms = .ok cs →
    ∀ c ∈ cs, P c.toDatum
  | [], _, cs, h => by
    cases h
    exact List.forall_mem_nil _
  | (k, d) :: ms, hms, cs, h => by
    obtain ⟨hd, hms⟩ := List.forall_mem_cons.1 hms
    unfold Condition.membersOf at h
    split at h
    · split at h
      · exact conditions_of_ofItems hP _ (hP.list.1 hd) h
      · split at h
        · cases h
          exact List.forall_mem_nil _
        · cases h
    · exact conditions_of_membersOf hP ms hms h

theorem condition_of_memberOf (hP : Pervasive P) {tag : String} : (ms : List (String × Datum)) →
    (∀ m ∈ ms, P m.2) → {c : Condition} → Condition.memberOf tag ms = .ok c → P c.toDatum
  | [], _, c, h => by cases h
  | (k, d) :: ms, hms, c, h => by
    obtain ⟨hd, hms⟩ := List.forall_mem_cons.1 hms
    unfold Condition.memberOf at h
    split at h
    · split at h
      · cases h
      · exact condition_of_ofDatum hP d hd h
    · exact condition_of_memberOf hP ms hms h

end

/-- The condition that is read from a text has the property. -/
theorem condition_of_ofText (hP : Pervasive P) {c : Condition}
    (h : Condition.ofText cs = .ok (some c)) : P c.toDatum := by
  have h := Condition.ofText_eq_ok h
  unfold Condition.ofStripped at h
  split at h
  · split at h
    · next hread =>
      rw [Condition.ofObject_eq] at h
      rcases orKept_eq_ok h with hd | ⟨-, hkept⟩
      · exact hP.condition_of_ofDatum _ (hP.of_read hread) hd
      · obtain rfl := Except.ok.inj hkept
        exact hP.text _
    · cases h
      exact hP.text _
    · cases h
  · obtain ⟨r, hr, heq⟩ := bind_eq_ok_iff.1 h
    cases r with
    | none =>
      cases heq
      exact hP.text _
    | some d =>
      cases heq
      exact hP.condition_of_spelledIn (Condition.spelledIn_of_ofShorthand? hr)

end Datum.Pervasive

/-! ## Effects -/

namespace Effect

/-- What a shorthand spells: keys and texts are parts of the text, and numbers have a notation. -/
inductive SpelledIn (cs : List Char) : Effect → Prop where
  | setFlag {key : String} {value : Bool} (hkey : key.toList <:+: cs) :
    SpelledIn cs (.setFlag key value)
  | addResource {key : String} {delta : Number} {p : Number.Parts} (hkey : key.toList <:+: cs)
      (hin : p.WholeIn cs) (hdelta : p.toNumber = .ok delta) : SpelledIn cs (.addResource key delta)
  | setVariable {key text : String} (hkey : key.toList <:+: cs) (htext : text.toList <:+: cs) :
    SpelledIn cs (.setVariable key (.text text))
  | goto {target : String} (htarget : target.toList <:+: cs) : SpelledIn cs (.goto target)

theorem SpelledIn.mono {as bs : List Char} {e : Effect} (h : e.SpelledIn as) (hab : as <:+: bs) :
    e.SpelledIn bs := by
  cases h with
  | setFlag hkey => exact .setFlag (hkey.trans hab)
  | addResource hkey hin hdelta => exact .addResource (hkey.trans hab) (hin.mono hab) hdelta
  | setVariable hkey htext => exact .setVariable (hkey.trans hab) (htext.trans hab)
  | goto htarget => exact .goto (htarget.trans hab)

theorem spelledIn_of_ofAddResource? {cs : List Char} {e : Effect}
    (h : ofAddResource? cs = .ok (some e)) : e.SpelledIn cs := by
  unfold ofAddResource? at h
  split at h
  · cases h
  · next hcut =>
    obtain ⟨hkey, hline⟩ := Condition.isInfix_of_cutAssignment? hcut
    split at h
    · cases h
    · next hp =>
      obtain ⟨delta, hdelta, h⟩ := bind_eq_ok_iff.1 h
      cases h
      exact .addResource hkey ((Number.Parts.wholeIn_of_ofPlain? hp).mono hline) hdelta

theorem spelledIn_of_ofShorthand? {cs : List Char} {e : Effect}
    (h : ofShorthand? cs = .ok (some e)) : e.SpelledIn cs := by
  obtain ⟨form, hform, hread⟩ := Condition.exists_of_findSomeM? h
  split at hread
  · next rest hrest =>
    refine SpelledIn.mono ?_ (Text.dropPrefix?_isInfix hrest)
    simp only [forms, List.mem_cons, List.not_mem_nil, or_false] at hform
    rcases hform with rfl | rfl | rfl | rfl
    · obtain ⟨⟨key, line⟩, hcut, rfl⟩ := Option.map_eq_some_iff.1 (Except.ok.inj hread)
      exact .setFlag (Condition.isInfix_of_cutAssignment? hcut).1
    · exact spelledIn_of_ofAddResource? hread
    · obtain ⟨⟨key, line⟩, hcut, rfl⟩ := Option.map_eq_some_iff.1 (Except.ok.inj hread)
      obtain ⟨hkey, hline⟩ := Condition.isInfix_of_cutAssignment? hcut
      refine .setVariable hkey ?_
      rwa [String.toList_ofList]
    · obtain ⟨-, heq⟩ := Option.ite_none_left_eq_some.1 (Except.ok.inj hread)
      cases heq
      exact .goto (Condition.toList_ofList_strip_isInfix (List.infix_refl _))
  · cases hread

end Effect

namespace Datum.Pervasive

variable {P : Datum → Prop} {cs : List Char}

theorem effect_of_spelledIn (hP : Pervasive P) {e : Effect} (h : e.SpelledIn cs) : P e.toDatum := by
  cases h with
  | setFlag hkey => simp [Effect.toDatum, hP.object, hP.text, hP.truth]
  | addResource hkey hin hdelta =>
    simp [Effect.toDatum, hP.object, hP.text, hP.written hin hdelta]
  | setVariable hkey htext => simp [Effect.toDatum, hP.object, hP.text, Scalar.toDatum]
  | goto htarget => simp [Effect.toDatum, hP.object, hP.text]

theorem effect_toData (hP : Pervasive P) {es : List Effect} :
    P (.list (Effect.toData es)) ↔ ∀ e ∈ es, P e.toDatum := by
  rw [hP.list]
  induction es with
  | nil => simp [Effect.toData]
  | cons e es ih => rw [Effect.toData, List.forall_mem_cons, List.forall_mem_cons, ih]

theorem oneOf (hP : Pervasive P) {members : List Effect} :
    P (Effect.oneOf members).toDatum ↔ ∀ e ∈ members, P e.toDatum := by
  simp [Effect.toDatum, hP.object, hP.text, hP.effect_toData]

theorem provided (hP : Pervasive P) {condition : Condition} {member : Effect} :
    P (Effect.provided condition member).toDatum ↔ P condition.toDatum ∧ P member.toDatum := by
  simp [Effect.toDatum, hP.object, hP.text]

mutual

/-- The effect that a datum describes is written with numbers and scalars of the datum. -/
theorem effect_of_ofDatum (hP : Pervasive P) : (d : Datum) → P d → {e : Effect} →
    Effect.ofDatum d = .ok e → P e.toDatum
  | .text s, _, e, h => by
    cases h
    exact hP.text _
  | .object ms, hms, e, h => by
    rw [Effect.ofDatum] at h
    split at h
    · obtain ⟨key, -, h⟩ := bind_eq_ok_iff.1 h
      obtain ⟨value, -, h⟩ := bind_eq_ok_iff.1 h
      cases h
      simp [Effect.toDatum, hP.object, hP.text, hP.truth]
    · obtain ⟨key, -, h⟩ := bind_eq_ok_iff.1 h
      obtain ⟨delta, hdelta, h⟩ := bind_eq_ok_iff.1 h
      cases h
      simp [Effect.toDatum, hP.object, hP.text, hP.number hdelta]
    · obtain ⟨key, -, h⟩ := bind_eq_ok_iff.1 h
      obtain ⟨factor, hfactor, h⟩ := bind_eq_ok_iff.1 h
      cases h
      simp [Effect.toDatum, hP.object, hP.text, hP.number hfactor]
    · obtain ⟨key, -, h⟩ := bind_eq_ok_iff.1 h
      obtain ⟨value, hvalue, h⟩ := bind_eq_ok_iff.1 h
      cases h
      simp [Effect.toDatum, hP.object, hP.text, hP.number hvalue]
    · obtain ⟨key, -, h⟩ := bind_eq_ok_iff.1 h
      obtain ⟨value, hvalue, h⟩ := bind_eq_ok_iff.1 h
      cases h
      simp [Effect.toDatum, hP.object, hP.text, hP.scalar hms hvalue]
    · obtain ⟨target, -, h⟩ := bind_eq_ok_iff.1 h
      cases h
      simp [Effect.toDatum, hP.object, hP.text]
    · obtain ⟨members, hmembers, h⟩ := bind_eq_ok_iff.1 h
      cases h
      exact hP.oneOf.2 (effects_of_membersOf hP ms (hP.object.1 hms) hmembers)
    · obtain ⟨condition, hcondition, h⟩ := bind_eq_ok_iff.1 h
      obtain ⟨member, hmember, h⟩ := bind_eq_ok_iff.1 h
      cases h
      exact hP.provided.2 ⟨hP.condition_of_memberOf ms (hP.object.1 hms) hcondition,
        effect_of_memberOf hP ms (hP.object.1 hms) hmember⟩
    · cases h
  | .null, _, e, h | .truth _, _, e, h | .number _, _, e, h | .list _, _, e, h => by cases h

theorem effects_of_ofItems (hP : Pervasive P) : (ds : List Datum) → (∀ d ∈ ds, P d) →
    {es : List Effect} → Effect.ofItems ds = .ok es → ∀ e ∈ es, P e.toDatum
  | [], _, es, h => by
    cases h
    exact List.forall_mem_nil _
  | d :: ds, hds, es, h => by
    obtain ⟨hd, hds⟩ := List.forall_mem_cons.1 hds
    obtain ⟨e, he, h⟩ := bind_eq_ok_iff.1 h
    obtain ⟨es', hes, h⟩ := bind_eq_ok_iff.1 h
    cases h
    exact List.forall_mem_cons.2 ⟨effect_of_ofDatum hP d hd he, effects_of_ofItems hP ds hds hes⟩

theorem effects_of_membersOf (hP : Pervasive P) : (ms : List (String × Datum)) →
    (∀ m ∈ ms, P m.2) → {es : List Effect} → Effect.membersOf ms = .ok es →
    ∀ e ∈ es, P e.toDatum
  | [], _, es, h => by
    cases h
    exact List.forall_mem_nil _
  | (k, d) :: ms, hms, es, h => by
    obtain ⟨hd, hms⟩ := List.forall_mem_cons.1 hms
    unfold Effect.membersOf at h
    split at h
    · split at h
      · exact effects_of_ofItems hP _ (hP.list.1 hd) h
      · split at h
        · cases h
          exact List.forall_mem_nil _
        · cases h
    · exact effects_of_membersOf hP ms hms h

theorem effect_of_memberOf (hP : Pervasive P) : (ms : List (String × Datum)) →
    (∀ m ∈ ms, P m.2) → {e : Effect} → Effect.memberOf ms = .ok e → P e.toDatum
  | [], _, e, h => by cases h
  | (k, d) :: ms, hms, e, h => by
    obtain ⟨hd, hms⟩ := List.forall_mem_cons.1 hms
    unfold Effect.memberOf at h
    split at h
    · split at h
      · cases h
      · exact effect_of_ofDatum hP d hd h
    · exact effect_of_memberOf hP ms hms h

end

/-- The effect that is read from a text has the property.  The induction is on the length of the text, as
members are read from parts of it. -/
theorem effect_of_ofStripped (hP : Pervasive P) {e : Effect} (h : Effect.ofStripped cs = .ok e) :
    P e.toDatum := by
  induction hn : cs.length using Nat.strong_induction_on generalizing cs e with
  | _ n ih =>
    subst hn
    cases hform : Effect.Form.ofText cs with
    | object =>
      rcases Effect.cases_of_object hform h with rfl | ⟨ms, hread, hd⟩
      · exact hP.text _
      · exact hP.effect_of_ofDatum _ (hP.of_read hread) hd
    | random members =>
      rcases Effect.cases_of_random hform h with rfl | ⟨read, hread, rfl⟩
      · exact hP.text _
      · refine hP.oneOf.2 fun e he => ?_
        obtain ⟨p, hp, hpe⟩ := Effect.exists_of_mem_mapM hread e he
        exact ih _ (Effect.part_of_random hform hp).shorter hpe rfl
    | conditional parts =>
      rcases Effect.cases_of_conditional hform h with
        rfl | ⟨text, effect, condition, member, hcut, hcondition, hmember, rfl⟩
      · exact hP.text _
      · have hpart := Effect.part_of_conditional hform hcut
        exact hP.provided.2 ⟨hP.condition_of_ofText hcondition,
          ih _ hpart.shorter (Effect.ofText_eq_ok hmember) rfl⟩
    | simple =>
      rcases Effect.cases_of_simple hform h with rfl | hread
      · exact hP.text _
      · exact hP.effect_of_spelledIn (Effect.spelledIn_of_ofShorthand? hread)

theorem effect_of_ofText (hP : Pervasive P) {e : Effect} (h : Effect.ofText cs = .ok (some e)) :
    P e.toDatum :=
  hP.effect_of_ofStripped (Effect.ofText_eq_ok h)

end Datum.Pervasive

/-! ## Undefined numbers -/

namespace Datum

theorem asWrittenItems_eq_iff {items : List Datum} :
    asWrittenItems items = items ↔ ∀ d ∈ items, d.asWritten = d := by
  induction items with
  | nil => simp [asWrittenItems]
  | cons d ds ih => rw [asWrittenItems, List.cons.injEq, List.forall_mem_cons, ih]

theorem asWrittenMembers_eq_iff {members : List (String × Datum)} :
    asWrittenMembers members = members ↔ ∀ m ∈ members, m.2.asWritten = m.2 := by
  induction members with
  | nil => simp [asWrittenMembers]
  | cons m ms ih =>
    obtain ⟨name, d⟩ := m
    rw [asWrittenMembers, List.cons.injEq, List.forall_mem_cons, ih]
    simp

theorem pervasive_asWritten : Pervasive fun d => d.asWritten = d where
  text _ := rfl
  word := by
    unfold Reader.words
    simp only [List.forall_mem_cons]
    exact ⟨rfl, rfl, rfl, rfl, rfl, rfl, List.forall_mem_nil _⟩
  finite h := congrArg Datum.number (Number.asWritten_of_isFinite h)
  written _ h := congrArg Datum.number (Number.Parts.asWritten_of_toNumber h)
  list := by simp [asWritten, asWrittenItems_eq_iff]
  object := by simp [asWritten, asWrittenMembers_eq_iff]

end Datum

/-- The datum of a condition reads back as it is, as far as undefined numbers go. -/
def Condition.AsWritten (c : Condition) : Prop :=
  c.toDatum.asWritten = c.toDatum

/-- What is read from a text has no other undefined numbers than documents write. -/
theorem Condition.asWritten_of_ofText {cs : List Char} {c : Condition}
    (h : ofText cs = .ok (some c)) : c.AsWritten :=
  Datum.pervasive_asWritten.condition_of_ofText h

namespace Effect

/-- The datum of an effect reads back as it is, as far as undefined numbers go. -/
def AsWritten (e : Effect) : Prop :=
  e.toDatum.asWritten = e.toDatum

theorem asWritten_oneOf {members : List Effect} :
    (oneOf members).AsWritten ↔ ∀ e ∈ members, e.AsWritten :=
  Datum.pervasive_asWritten.oneOf

theorem asWritten_provided {condition : Condition} {member : Effect} :
    (provided condition member).AsWritten ↔ condition.AsWritten ∧ member.AsWritten :=
  Datum.pervasive_asWritten.provided

/-- What is read from a text has no other undefined numbers than documents write. -/
theorem asWritten_of_ofText {cs : List Char} {e : Effect} (h : ofText cs = .ok (some e)) :
    e.AsWritten :=
  Datum.pervasive_asWritten.effect_of_ofText h

end Effect

/-! ## Numbers that can be written -/

namespace Datum

theorem someTooLong_eq_false_iff {items : List Datum} :
    someTooLong items = false ↔ ∀ d ∈ items, d.hasTooLong = false := by
  induction items with
  | nil => simp [someTooLong]
  | cons d ds ih => simp [someTooLong, ih]

theorem memberTooLong_eq_false_iff {members : List (String × Datum)} :
    memberTooLong members = false ↔ ∀ m ∈ members, m.2.hasTooLong = false := by
  induction members with
  | nil => simp [memberTooLong]
  | cons m ms ih =>
    obtain ⟨name, d⟩ := m
    simp [memberTooLong, ih]

theorem pervasive_short : Pervasive fun d => d.hasTooLong = false where
  text _ := rfl
  word := by
    unfold Reader.words
    simp only [List.forall_mem_cons]
    exact ⟨rfl, rfl, rfl, rfl, rfl, rfl, List.forall_mem_nil _⟩
  finite h := Number.isTooLong_of_isFinite h
  written := Number.Parts.isTooLong_of_toNumber
  list := by simp [hasTooLong, someTooLong_eq_false_iff]
  object := by simp [hasTooLong, memberTooLong_eq_false_iff]

end Datum

end Gamebook
