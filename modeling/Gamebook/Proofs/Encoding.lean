import Gamebook.Effect.Tagged
import Gamebook.Proofs.Fallible

/-!
# Writing conditions and effects as data

What is read from a document has keys that are not empty and numbers that are finite, at every depth
(`wellFormed_of_ofDatum`), whatever spellings the document uses.  What is so reads back from its own
datum as it is (`ofDatum_toDatum`), and nothing else is read from that datum
(`eq_of_ofDatum_toDatum`).  Together: to write what was read, and to read that, changes nothing
(`reading_after_writing`).
-/

namespace Gamebook

/-! ## Fields -/

namespace Tagged

variable {tag field : String} {ms : Members}

theorem ne_empty_of_key {key : String} (h : Tagged.key tag ms = .ok key) : key ≠ "" := by
  obtain ⟨d, -, hd⟩ := bind_eq_ok_iff.1 h
  cases d with
  | text s =>
    by_cases hs : s = ""
    · simp only [hs, ↓reduceIte] at hd
      cases hd
    · simp only [hs, ↓reduceIte, pure_eq_ok, Except.ok.injEq] at hd
      exact hd ▸ hs
  | _ => cases hd

theorem isFinite_of_number {n : Number} (h : number tag field ms = .ok n) :
    n.isFinite = .ok true := by
  obtain ⟨d, -, hd⟩ := bind_eq_ok_iff.1 h
  cases d with
  | number m =>
    simp only at hd
    split at hd
    · cases hd
    · cases hd
    · next hm =>
      cases hd
      exact hm
  | _ => cases hd

theorem member?_of_require {d : Datum} (h : require tag field ms = .ok d) :
    Datum.member? field ms = some d := by
  unfold require at h
  split at h
  · cases h
  · cases h
  · next hd =>
    cases h
    exact hd

theorem member?_of_key {key : String} (h : Tagged.key tag ms = .ok key) :
    Datum.member? "key" ms = some (.text key) := by
  obtain ⟨d, hd, h⟩ := bind_eq_ok_iff.1 h
  cases d with
  | text s =>
    simp only at h
    split at h
    · cases h
    · cases h
      exact member?_of_require hd
  | _ => cases h

theorem member?_of_number {n : Number} (h : number tag field ms = .ok n) :
    Datum.member? field ms = some (.number n) := by
  obtain ⟨d, hd, h⟩ := bind_eq_ok_iff.1 h
  cases d with
  | number m =>
    simp only at h
    split at h
    · cases h
    · cases h
    · cases h
      exact member?_of_require hd
  | _ => cases h
end Tagged

@[simp] theorem Relation.ofSign?_sign (r : Relation) : Relation.ofSign? r.sign = some r := by
  cases r <;> decide

@[simp] theorem Likeness.ofSign?_sign (r : Likeness) : Likeness.ofSign? r.sign = some r := by
  cases r <;> decide

/-- A field that holds the datum of a scalar is read as that scalar. -/
theorem Tagged.scalar_of_member (tag field : String) {ms : Members} {x : Scalar}
    (h : Datum.member? field ms = some x.toDatum) : Tagged.scalar tag field ms = .ok x := by
  unfold Tagged.scalar
  rw [h]
  cases x <;> rfl

/-! ## Conditions -/

namespace Condition

/-- Keys are not empty and numbers are finite, at every depth. -/
inductive WellFormed : Condition → Prop where
  | flagIs {key : String} {value : Bool} (hkey : key ≠ "") : WellFormed (.flagIs key value)
  | resourceIs {key : String} {relation : Relation} {value : Number} (hkey : key ≠ "")
      (hvalue : value.isFinite = .ok true) : WellFormed (.resourceIs key relation value)
  | variableIs {key : String} {likeness : Likeness} {value : Scalar} (hkey : key ≠ "") :
    WellFormed (.variableIs key likeness value)
  | during {start stop : Number} (hstart : start.isFinite = .ok true)
      (hstop : stop.isFinite = .ok true) : WellFormed (.during start stop)
  | allOf {members : List Condition} (h : ∀ c ∈ members, WellFormed c) : WellFormed (.allOf members)
  | anyOf {members : List Condition} (h : ∀ c ∈ members, WellFormed c) : WellFormed (.anyOf members)
  | negation {member : Condition} (h : WellFormed member) : WellFormed (.negation member)
  | verbatim {text : String} : WellFormed (.verbatim text)

/-! ### Writing and reading -/

theorem ofItems_toData {cs : List Condition} (h : ∀ c ∈ cs, ofDatum c.toDatum = .ok c) :
    ofItems (toData cs) = .ok cs := by
  induction cs with
  | nil => rfl
  | cons c cs ih =>
    rw [toData, ofItems, h c List.mem_cons_self, ih fun c hc => h c (List.mem_cons_of_mem _ hc)]
    rfl

theorem memberOf_cons_of_ne (tag : String) {k : String} (hk : k ≠ "condition") (d : Datum)
    (ms : Tagged.Members) : memberOf tag ((k, d) :: ms) = memberOf tag ms := by
  rw [memberOf.eq_def]
  exact if_neg hk

/-- The field with a member is read as that member, since no condition is written as null. -/
theorem memberOf_cons_self (tag : String) (c : Condition) (ms : Tagged.Members) :
    memberOf tag (("condition", c.toDatum) :: ms) = ofDatum c.toDatum := by
  have hnull : c.toDatum ≠ .null := by cases c <;> simp [toDatum]
  unfold memberOf
  rw [if_pos rfl]
  split
  · next h => exact absurd h hnull
  · rfl

/-- A well-formed condition reads back from its datum. -/
theorem ofDatum_toDatum {c : Condition} (h : c.WellFormed) : ofDatum c.toDatum = .ok c := by
  induction h with
  | flagIs hkey => simp [toDatum, ofDatum, Tagged.key, Tagged.require, hkey, Tagged.truth]
  | resourceIs hkey hvalue =>
    simp [toDatum, ofDatum, relationOf, Tagged.key, Tagged.require, hkey, Tagged.number, hvalue]
  | @variableIs key likeness value hkey =>
    have hvalue : Datum.member? "value" [("type", .text "variable"), ("key", .text key),
        ("op", .text likeness.sign), ("value", value.toDatum)] = some value.toDatum := by simp
    have hscalar := Tagged.scalar_of_member "variable" "value" hvalue
    simp [toDatum, ofDatum, likenessOf, Tagged.key, Tagged.require, hkey, hscalar]
  | during hstart hstop =>
    simp [toDatum, ofDatum, Tagged.number, Tagged.require, hstart, hstop]
  | allOf h ih => simp [toDatum, ofDatum, membersOf, ofItems_toData ih]
  | anyOf h ih => simp [toDatum, ofDatum, membersOf, ofItems_toData ih]
  | negation h ih => simp [toDatum, ofDatum, memberOf_cons_of_ne, memberOf_cons_self, ih]
  | verbatim => rfl

mutual

/-- What the datum of a condition is read as is the condition. -/
theorem eq_of_ofDatum_toDatum : (c : Condition) → {d : Condition} → ofDatum c.toDatum = .ok d → d = c
  | .flagIs key value, d, h => by
    simp only [toDatum, ofDatum, Datum.memberOrNull_cons, ↓reduceIte] at h
    obtain ⟨key', hkey, h⟩ := bind_eq_ok_iff.1 h
    obtain ⟨value', hvalue, h⟩ := bind_eq_ok_iff.1 h
    cases h
    have hkey : key = key' := by simpa using Tagged.member?_of_key hkey
    have hvalue : value = value' := by simpa [Tagged.truth] using hvalue
    rw [hkey, hvalue]
  | .resourceIs key relation value, d, h => by
    simp only [toDatum, ofDatum, Datum.memberOrNull_cons, ↓reduceIte] at h
    obtain ⟨relation', hrelation, h⟩ := bind_eq_ok_iff.1 h
    obtain ⟨key', hkey, h⟩ := bind_eq_ok_iff.1 h
    obtain ⟨value', hvalue, h⟩ := bind_eq_ok_iff.1 h
    cases h
    have hkey : key = key' := by simpa using Tagged.member?_of_key hkey
    have hvalue : value = value' := by simpa using Tagged.member?_of_number hvalue
    have hrelation : relation = relation' := by simpa [relationOf] using hrelation
    rw [hkey, hvalue, hrelation]
  | .variableIs key likeness value, d, h => by
    simp only [toDatum, ofDatum, Datum.memberOrNull_cons, ↓reduceIte] at h
    obtain ⟨likeness', hlikeness, h⟩ := bind_eq_ok_iff.1 h
    obtain ⟨key', hkey, h⟩ := bind_eq_ok_iff.1 h
    obtain ⟨value', hvalue, h⟩ := bind_eq_ok_iff.1 h
    cases h
    have hkey : key = key' := by simpa using Tagged.member?_of_key hkey
    rw [Tagged.scalar_of_member (x := value) _ _ (by simp)] at hvalue
    have hlikeness : likeness = likeness' := by simpa [likenessOf] using hlikeness
    rw [hkey, hlikeness, Except.ok.inj hvalue]
  | .during start stop, d, h => by
    simp only [toDatum, ofDatum, Datum.memberOrNull_cons, ↓reduceIte] at h
    obtain ⟨start', hstart, h⟩ := bind_eq_ok_iff.1 h
    obtain ⟨stop', hstop, h⟩ := bind_eq_ok_iff.1 h
    cases h
    have hstart : start = start' := by simpa using Tagged.member?_of_number hstart
    have hstop : stop = stop' := by simpa using Tagged.member?_of_number hstop
    rw [hstart, hstop]
  | .allOf members, d, h => by
    simp only [toDatum, ofDatum, Datum.memberOrNull_cons, ↓reduceIte] at h
    obtain ⟨members', hmembers, h⟩ := bind_eq_ok_iff.1 h
    cases h
    have hitems : ofItems (toData members) = .ok members' := by simpa [membersOf] using hmembers
    rw [eq_of_ofItems_toData members hitems]
  | .anyOf members, d, h => by
    simp only [toDatum, ofDatum, Datum.memberOrNull_cons, ↓reduceIte] at h
    obtain ⟨members', hmembers, h⟩ := bind_eq_ok_iff.1 h
    cases h
    have hitems : ofItems (toData members) = .ok members' := by simpa [membersOf] using hmembers
    rw [eq_of_ofItems_toData members hitems]
  | .negation member, d, h => by
    simp only [toDatum, ofDatum, Datum.memberOrNull_cons, ↓reduceIte] at h
    obtain ⟨member', hmember, h⟩ := bind_eq_ok_iff.1 h
    cases h
    rw [memberOf_cons_of_ne _ (by decide), memberOf_cons_self] at hmember
    rw [eq_of_ofDatum_toDatum member hmember]
  | .verbatim text, d, h => by
    cases h
    rfl

theorem eq_of_ofItems_toData : (cs : List Condition) → {ds : List Condition} →
    ofItems (toData cs) = .ok ds → ds = cs
  | [], ds, h => by
    cases h
    rfl
  | c :: cs, ds, h => by
    obtain ⟨d, hd, h⟩ := bind_eq_ok_iff.1 h
    obtain ⟨ds', hds, h⟩ := bind_eq_ok_iff.1 h
    cases h
    rw [eq_of_ofDatum_toDatum c hd, eq_of_ofItems_toData cs hds]

end

/-! ### Reading and writing -/

mutual

/-- What is read is well-formed. -/
theorem wellFormed_of_ofDatum : (d : Datum) → {c : Condition} → ofDatum d = .ok c → c.WellFormed
  | .text s, c, h => by
    cases h
    exact .verbatim
  | .object ms, c, h => by
    rw [ofDatum] at h
    split at h
    · obtain ⟨key, hkey, h⟩ := bind_eq_ok_iff.1 h
      obtain ⟨value, -, h⟩ := bind_eq_ok_iff.1 h
      cases h
      exact .flagIs (Tagged.ne_empty_of_key hkey)
    · obtain ⟨relation, -, h⟩ := bind_eq_ok_iff.1 h
      obtain ⟨key, hkey, h⟩ := bind_eq_ok_iff.1 h
      obtain ⟨value, hvalue, h⟩ := bind_eq_ok_iff.1 h
      cases h
      exact .resourceIs (Tagged.ne_empty_of_key hkey) (Tagged.isFinite_of_number hvalue)
    · obtain ⟨likeness, -, h⟩ := bind_eq_ok_iff.1 h
      obtain ⟨key, hkey, h⟩ := bind_eq_ok_iff.1 h
      obtain ⟨value, -, h⟩ := bind_eq_ok_iff.1 h
      cases h
      exact .variableIs (Tagged.ne_empty_of_key hkey)
    · obtain ⟨start, hstart, h⟩ := bind_eq_ok_iff.1 h
      obtain ⟨stop, hstop, h⟩ := bind_eq_ok_iff.1 h
      cases h
      exact .during (Tagged.isFinite_of_number hstart) (Tagged.isFinite_of_number hstop)
    · obtain ⟨members, hmembers, h⟩ := bind_eq_ok_iff.1 h
      cases h
      exact .allOf (wellFormed_of_membersOf ms hmembers)
    · obtain ⟨members, hmembers, h⟩ := bind_eq_ok_iff.1 h
      cases h
      exact .anyOf (wellFormed_of_membersOf ms hmembers)
    · obtain ⟨member, hmember, h⟩ := bind_eq_ok_iff.1 h
      cases h
      exact .negation (wellFormed_of_memberOf ms hmember)
    · cases h
  | .null, c, h | .truth _, c, h | .number _, c, h | .list _, c, h => by cases h

theorem wellFormed_of_ofItems : (ds : List Datum) → {cs : List Condition} → ofItems ds = .ok cs →
    ∀ c ∈ cs, c.WellFormed
  | [], cs, h => by
    cases h
    exact List.forall_mem_nil _
  | d :: ds, cs, h => by
    obtain ⟨c, hc, h⟩ := bind_eq_ok_iff.1 h
    obtain ⟨cs', hcs, h⟩ := bind_eq_ok_iff.1 h
    cases h
    exact List.forall_mem_cons.2 ⟨wellFormed_of_ofDatum d hc, wellFormed_of_ofItems ds hcs⟩

theorem wellFormed_of_membersOf {tag : String} : (ms : List (String × Datum)) →
    {cs : List Condition} → membersOf tag ms = .ok cs → ∀ c ∈ cs, c.WellFormed
  | [], cs, h => by
    cases h
    exact List.forall_mem_nil _
  | (k, d) :: ms, cs, h => by
    unfold membersOf at h
    split at h
    · split at h
      · next items => exact wellFormed_of_ofItems items h
      · split at h
        · cases h
          exact List.forall_mem_nil _
        · cases h
    · exact wellFormed_of_membersOf ms h

theorem wellFormed_of_memberOf {tag : String} : (ms : List (String × Datum)) → {c : Condition} →
    memberOf tag ms = .ok c → c.WellFormed
  | [], c, h => by cases h
  | (k, d) :: ms, c, h => by
    unfold memberOf at h
    split at h
    · split at h
      · cases h
      · exact wellFormed_of_ofDatum d h
    · exact wellFormed_of_memberOf ms h

end

end Condition

/-! ## Effects -/

namespace Effect

/-- Keys are not empty and numbers are finite, at every depth and in conditions. -/
inductive WellFormed : Effect → Prop where
  | setFlag {key : String} {value : Bool} (hkey : key ≠ "") : WellFormed (.setFlag key value)
  | addResource {key : String} {delta : Number} (hkey : key ≠ "")
      (hdelta : delta.isFinite = .ok true) : WellFormed (.addResource key delta)
  | multiplyResource {key : String} {factor : Number} (hkey : key ≠ "")
      (hfactor : factor.isFinite = .ok true) : WellFormed (.multiplyResource key factor)
  | setResource {key : String} {value : Number} (hkey : key ≠ "")
      (hvalue : value.isFinite = .ok true) : WellFormed (.setResource key value)
  | setVariable {key : String} {value : Scalar} (hkey : key ≠ "") :
    WellFormed (.setVariable key value)
  | goto {target : String} : WellFormed (.goto target)
  | oneOf {members : List Effect} (h : ∀ e ∈ members, WellFormed e) : WellFormed (.oneOf members)
  | provided {condition : Condition} {member : Effect} (hcondition : condition.WellFormed)
      (h : WellFormed member) : WellFormed (.provided condition member)
  | verbatim {text : String} : WellFormed (.verbatim text)

/-! ### Writing and reading -/

theorem ofItems_toData {es : List Effect} (h : ∀ e ∈ es, ofDatum e.toDatum = .ok e) :
    ofItems (toData es) = .ok es := by
  induction es with
  | nil => rfl
  | cons e es ih =>
    rw [toData, ofItems, h e List.mem_cons_self, ih fun e he => h e (List.mem_cons_of_mem _ he)]
    rfl

theorem memberOf_cons_of_ne {k : String} (hk : k ≠ "effect") (d : Datum) (ms : Tagged.Members) :
    memberOf ((k, d) :: ms) = memberOf ms := by
  rw [memberOf.eq_def]
  exact if_neg hk

/-- The field with a member is read as that member, since no effect is written as null. -/
theorem memberOf_cons_self (e : Effect) (ms : Tagged.Members) :
    memberOf (("effect", e.toDatum) :: ms) = ofDatum e.toDatum := by
  have hnull : e.toDatum ≠ .null := by cases e <;> simp [toDatum]
  unfold memberOf
  rw [if_pos rfl]
  split
  · next h => exact absurd h hnull
  · rfl

/-- A well-formed effect reads back from its datum. -/
theorem ofDatum_toDatum {e : Effect} (h : e.WellFormed) : ofDatum e.toDatum = .ok e := by
  induction h with
  | setFlag hkey => simp [toDatum, ofDatum, Tagged.key, Tagged.require, hkey, Tagged.truth]
  | addResource hkey hdelta =>
    simp [toDatum, ofDatum, deltaField, Tagged.key, Tagged.require, hkey, Tagged.number, hdelta]
  | multiplyResource hkey hfactor =>
    simp [toDatum, ofDatum, Tagged.key, Tagged.require, hkey, Tagged.number, hfactor]
  | setResource hkey hvalue =>
    simp [toDatum, ofDatum, Tagged.key, Tagged.require, hkey, Tagged.number, hvalue]
  | @setVariable key value hkey =>
    have hvalue : Datum.member? "value" [("type", .text "setVariable"), ("key", .text key),
        ("value", value.toDatum)] = some value.toDatum := by simp
    have hscalar := Tagged.scalar_of_member "setVariable" "value" hvalue
    simp [toDatum, ofDatum, Tagged.key, Tagged.require, hkey, hscalar]
  | goto => simp [toDatum, ofDatum, targetOf, Tagged.require]
  | oneOf h ih => simp [toDatum, ofDatum, membersOf, ofItems_toData ih]
  | provided hcondition h ih =>
    simp [toDatum, ofDatum, memberOf_cons_of_ne, memberOf_cons_self, Condition.memberOf_cons_of_ne,
      Condition.memberOf_cons_self, Condition.ofDatum_toDatum hcondition, ih]
  | verbatim => rfl

mutual

/-- What the datum of an effect is read as is the effect. -/
theorem eq_of_ofDatum_toDatum : (e : Effect) → {f : Effect} → ofDatum e.toDatum = .ok f → f = e
  | .setFlag key value, f, h => by
    simp only [toDatum, ofDatum, Datum.memberOrNull_cons, ↓reduceIte] at h
    obtain ⟨key', hkey, h⟩ := bind_eq_ok_iff.1 h
    obtain ⟨value', hvalue, h⟩ := bind_eq_ok_iff.1 h
    cases h
    have hkey : key = key' := by simpa using Tagged.member?_of_key hkey
    have hvalue : value = value' := by simpa [Tagged.truth] using hvalue
    rw [hkey, hvalue]
  | .addResource key delta, f, h => by
    simp only [toDatum, ofDatum, Datum.memberOrNull_cons, ↓reduceIte] at h
    obtain ⟨key', hkey, h⟩ := bind_eq_ok_iff.1 h
    obtain ⟨delta', hdelta, h⟩ := bind_eq_ok_iff.1 h
    cases h
    have hkey : key = key' := by simpa using Tagged.member?_of_key hkey
    have hdelta : delta = delta' := by simpa [deltaField] using Tagged.member?_of_number hdelta
    rw [hkey, hdelta]
  | .multiplyResource key factor, f, h => by
    simp only [toDatum, ofDatum, Datum.memberOrNull_cons, ↓reduceIte] at h
    obtain ⟨key', hkey, h⟩ := bind_eq_ok_iff.1 h
    obtain ⟨factor', hfactor, h⟩ := bind_eq_ok_iff.1 h
    cases h
    have hkey : key = key' := by simpa using Tagged.member?_of_key hkey
    have hfactor : factor = factor' := by simpa using Tagged.member?_of_number hfactor
    rw [hkey, hfactor]
  | .setResource key value, f, h => by
    simp only [toDatum, ofDatum, Datum.memberOrNull_cons, ↓reduceIte] at h
    obtain ⟨key', hkey, h⟩ := bind_eq_ok_iff.1 h
    obtain ⟨value', hvalue, h⟩ := bind_eq_ok_iff.1 h
    cases h
    have hkey : key = key' := by simpa using Tagged.member?_of_key hkey
    have hvalue : value = value' := by simpa using Tagged.member?_of_number hvalue
    rw [hkey, hvalue]
  | .setVariable key value, f, h => by
    simp only [toDatum, ofDatum, Datum.memberOrNull_cons, ↓reduceIte] at h
    obtain ⟨key', hkey, h⟩ := bind_eq_ok_iff.1 h
    obtain ⟨value', hvalue, h⟩ := bind_eq_ok_iff.1 h
    cases h
    have hkey : key = key' := by simpa using Tagged.member?_of_key hkey
    rw [Tagged.scalar_of_member (x := value) _ _ (by simp)] at hvalue
    rw [hkey, Except.ok.inj hvalue]
  | .goto target, f, h => by
    simp only [toDatum, ofDatum, Datum.memberOrNull_cons, ↓reduceIte] at h
    obtain ⟨target', htarget, h⟩ := bind_eq_ok_iff.1 h
    cases h
    have htarget : target = target' := by simpa [targetOf, Tagged.require] using htarget
    rw [htarget]
  | .oneOf members, f, h => by
    simp only [toDatum, ofDatum, Datum.memberOrNull_cons, ↓reduceIte] at h
    obtain ⟨members', hmembers, h⟩ := bind_eq_ok_iff.1 h
    cases h
    have hitems : ofItems (toData members) = .ok members' := by simpa [membersOf] using hmembers
    rw [eq_of_ofItems_toData members hitems]
  | .provided condition member, f, h => by
    simp only [toDatum, ofDatum, Datum.memberOrNull_cons, ↓reduceIte] at h
    obtain ⟨condition', hcondition, h⟩ := bind_eq_ok_iff.1 h
    obtain ⟨member', hmember, h⟩ := bind_eq_ok_iff.1 h
    cases h
    rw [Condition.memberOf_cons_of_ne _ (by decide), Condition.memberOf_cons_self] at hcondition
    rw [memberOf_cons_of_ne (by decide), memberOf_cons_of_ne (by decide), memberOf_cons_self]
      at hmember
    rw [Condition.eq_of_ofDatum_toDatum condition hcondition, eq_of_ofDatum_toDatum member hmember]
  | .verbatim text, f, h => by
    cases h
    rfl

theorem eq_of_ofItems_toData : (es : List Effect) → {fs : List Effect} →
    ofItems (toData es) = .ok fs → fs = es
  | [], fs, h => by
    cases h
    rfl
  | e :: es, fs, h => by
    obtain ⟨f, hf, h⟩ := bind_eq_ok_iff.1 h
    obtain ⟨fs', hfs, h⟩ := bind_eq_ok_iff.1 h
    cases h
    rw [eq_of_ofDatum_toDatum e hf, eq_of_ofItems_toData es hfs]

end

/-! ### Reading and writing -/

mutual

/-- What is read is well-formed. -/
theorem wellFormed_of_ofDatum : (d : Datum) → {e : Effect} → ofDatum d = .ok e → e.WellFormed
  | .text s, e, h => by
    cases h
    exact .verbatim
  | .object ms, e, h => by
    rw [ofDatum] at h
    split at h
    · obtain ⟨key, hkey, h⟩ := bind_eq_ok_iff.1 h
      obtain ⟨value, -, h⟩ := bind_eq_ok_iff.1 h
      cases h
      exact .setFlag (Tagged.ne_empty_of_key hkey)
    · obtain ⟨key, hkey, h⟩ := bind_eq_ok_iff.1 h
      obtain ⟨delta, hdelta, h⟩ := bind_eq_ok_iff.1 h
      cases h
      exact .addResource (Tagged.ne_empty_of_key hkey) (Tagged.isFinite_of_number hdelta)
    · obtain ⟨key, hkey, h⟩ := bind_eq_ok_iff.1 h
      obtain ⟨factor, hfactor, h⟩ := bind_eq_ok_iff.1 h
      cases h
      exact .multiplyResource (Tagged.ne_empty_of_key hkey) (Tagged.isFinite_of_number hfactor)
    · obtain ⟨key, hkey, h⟩ := bind_eq_ok_iff.1 h
      obtain ⟨value, hvalue, h⟩ := bind_eq_ok_iff.1 h
      cases h
      exact .setResource (Tagged.ne_empty_of_key hkey) (Tagged.isFinite_of_number hvalue)
    · obtain ⟨key, hkey, h⟩ := bind_eq_ok_iff.1 h
      obtain ⟨value, -, h⟩ := bind_eq_ok_iff.1 h
      cases h
      exact .setVariable (Tagged.ne_empty_of_key hkey)
    · obtain ⟨target, -, h⟩ := bind_eq_ok_iff.1 h
      cases h
      exact .goto
    · obtain ⟨members, hmembers, h⟩ := bind_eq_ok_iff.1 h
      cases h
      exact .oneOf (wellFormed_of_membersOf ms hmembers)
    · obtain ⟨condition, hcondition, h⟩ := bind_eq_ok_iff.1 h
      obtain ⟨member, hmember, h⟩ := bind_eq_ok_iff.1 h
      cases h
      exact .provided (Condition.wellFormed_of_memberOf ms hcondition)
        (wellFormed_of_memberOf ms hmember)
    · cases h
  | .null, e, h | .truth _, e, h | .number _, e, h | .list _, e, h => by cases h

theorem wellFormed_of_ofItems : (ds : List Datum) → {es : List Effect} → ofItems ds = .ok es →
    ∀ e ∈ es, e.WellFormed
  | [], es, h => by
    cases h
    exact List.forall_mem_nil _
  | d :: ds, es, h => by
    obtain ⟨e, he, h⟩ := bind_eq_ok_iff.1 h
    obtain ⟨es', hes, h⟩ := bind_eq_ok_iff.1 h
    cases h
    exact List.forall_mem_cons.2 ⟨wellFormed_of_ofDatum d he, wellFormed_of_ofItems ds hes⟩

theorem wellFormed_of_membersOf : (ms : List (String × Datum)) → {es : List Effect} →
    membersOf ms = .ok es → ∀ e ∈ es, e.WellFormed
  | [], es, h => by
    cases h
    exact List.forall_mem_nil _
  | (k, d) :: ms, es, h => by
    unfold membersOf at h
    split at h
    · split at h
      · next items => exact wellFormed_of_ofItems items h
      · split at h
        · cases h
          exact List.forall_mem_nil _
        · cases h
    · exact wellFormed_of_membersOf ms h

theorem wellFormed_of_memberOf : (ms : List (String × Datum)) → {e : Effect} →
    memberOf ms = .ok e → e.WellFormed
  | [], e, h => by cases h
  | (k, d) :: ms, e, h => by
    unfold memberOf at h
    split at h
    · split at h
      · cases h
      · exact wellFormed_of_ofDatum d h
    · exact wellFormed_of_memberOf ms h

end

end Effect

/-! ## Normal forms -/

/-- The datum that a document writes for the condition that a datum describes. -/
def Condition.normalForm (d : Datum) : Except DecodeError Datum :=
  (Condition.ofDatum d).map Condition.toDatum

/-- The datum that a document writes for the effect that a datum describes. -/
def Effect.normalForm (d : Datum) : Except DecodeError Datum :=
  (Effect.ofDatum d).map Effect.toDatum

/-- Writing what was read and reading it again gives the same condition, or the same effect, in each
of its parts, whatever spelling it was read from; and what could not be read stays the same error.
So a normal form is its own normal form. -/
theorem reading_after_writing (d : Datum) :
    (Condition.ofDatum d >>= fun c => Condition.ofDatum c.toDatum) = Condition.ofDatum d ∧
    (Condition.normalForm d >>= Condition.normalForm) = Condition.normalForm d ∧
    (Effect.ofDatum d >>= fun e => Effect.ofDatum e.toDatum) = Effect.ofDatum d ∧
    (Effect.normalForm d >>= Effect.normalForm) = Effect.normalForm d := by
  have condition {c : Condition} (h : Condition.ofDatum d = .ok c) :
      Condition.ofDatum c.toDatum = .ok c :=
    Condition.ofDatum_toDatum (Condition.wellFormed_of_ofDatum d h)
  have effect {e : Effect} (h : Effect.ofDatum d = .ok e) : Effect.ofDatum e.toDatum = .ok e :=
    Effect.ofDatum_toDatum (Effect.wellFormed_of_ofDatum d h)
  unfold Condition.normalForm Effect.normalForm
  refine ⟨?_, ?_, ?_, ?_⟩
  · cases h : Condition.ofDatum d with
    | error e => rfl
    | ok c => exact condition h
  · cases h : Condition.ofDatum d with
    | error e => rfl
    | ok c => exact congrArg (Except.map Condition.toDatum) (condition h)
  · cases h : Effect.ofDatum d with
    | error e => rfl
    | ok e => exact effect h
  · cases h : Effect.ofDatum d with
    | error e => rfl
    | ok e => exact congrArg (Except.map Effect.toDatum) (effect h)

end Gamebook
