import Gamebook.Proofs.EffectText

/-!
# Objects and their texts

A condition or an effect is read from an object or from a text, and the text may be what the object is
written as.  Then it makes no difference which of the two is read (`Datum.object_reads_as_its_text`):
the object describes the same on both ways, the same number is out of range, and an object that
describes nothing is kept as its text, which is kept as it is.  Only the undefined numbers become those
that documents write.

The text is missing where a number has more digits than are written.  Such an object may well be read
(`Datum.long_object_has_no_text`).
-/

namespace Gamebook

/-! ## Readings of an object and of its text -/

section

variable {α : Type} {f : α → α} {x y : Except DecodeError α}

theorem orKept_of_mirrors (h : Mirrors f x y) {a : α} (ha : f a = a) :
    orKept y (.ok a) = (orKept x (.ok a)).map f := by
  cases h with
  | accepted b => rfl
  | refused e e' => exact congrArg Except.ok ha.symm
  | outOfRange e => rfl

/-- An object and a text are read alike: `read` finds the same in both, up to undefined numbers, and the
text itself if `decode` refuses the object. -/
structure ReadAlike (read : Datum → Except RangeError (Option α))
    (decode : Datum → Except DecodeError α) (verbatim : String → α) (asWritten : α → α)
    (object : Datum) (text : String) : Prop where
  /-- What is read from the text is what is read from the object, as documents write it. -/
  alike : read (.text text) = (read object).map (Option.map asWritten)
  /-- If the object has no undefined numbers but those that documents write, it is the very same. -/
  same : object.asWritten = object → read (.text text) = read object
  /-- An object that describes nothing is kept as its text, and so is the text. -/
  kept : ∀ e, decode object = .error (.tagged e) →
    read object = .ok (some (verbatim text)) ∧ read (.text text) = .ok (some (verbatim text))

variable {read : Datum → Except RangeError (Option α)} {decode : Datum → Except DecodeError α}
  {verbatim : String → α} {asWritten : α → α}

/-- Where an object and its text are both decoded or kept, they are read alike if decoding does not see
undefined numbers. -/
theorem readAlike_of_orKept {object : Datum} {text : String}
    (hmirrors : Mirrors asWritten (decode object) (decode object.asWritten))
    (hverbatim : asWritten (verbatim text) = verbatim text)
    (hobject : read object = (orKept (decode object) (.ok (verbatim text))).map some)
    (htext : read (.text text) = (orKept (decode object.asWritten) (.ok (verbatim text))).map some) :
    ReadAlike read decode verbatim asWritten object text where
  alike := by
    rw [htext, hobject, orKept_of_mirrors hmirrors hverbatim]
    cases orKept (decode object) (.ok (verbatim text)) <;> rfl
  same := by
    intro hwritten
    rw [htext, hobject, hwritten]
  kept := by
    intro e he
    have hrefused : Verdict.of (decode object) = .refused := by rw [he]; rfl
    rw [htext, hobject, orKept_of_refused hrefused,
      orKept_of_refused (hmirrors.verdict.trans hrefused)]
    exact ⟨rfl, rfl⟩

end

/-! ## Conditions and effects -/

section

variable {ms : List (String × Datum)}

theorem Condition.ofTextOrObject_object (ms : List (String × Datum)) :
    ofTextOrObject (.object ms) =
      (orKept (ofDatum (.object ms))
        ((Datum.object ms).literal.map fun cs => .verbatim (String.ofList cs))).map some := by
  rw [ofTextOrObject, ofObject_eq]

theorem Effect.ofTextOrObject_object (ms : List (String × Datum)) :
    ofTextOrObject (.object ms) =
      (orKept (ofDatum (.object ms))
        ((Datum.object ms).literal.map fun cs => .verbatim (String.ofList cs))).map some := by
  rw [ofTextOrObject, ofObject_eq]

theorem Condition.readAlike_compact (hsettled : (Datum.object ms).settle = .object ms)
    (hshort : (Datum.object ms).hasTooLong = false) :
    ReadAlike ofTextOrObject ofDatum .verbatim asWritten (.object ms)
      (String.ofList (Datum.object ms).compact) := by
  refine readAlike_of_orKept (mirrors_ofDatum _) rfl ?_ ?_
  · rw [ofTextOrObject_object, Datum.literal_of_short hshort]
    rfl
  · rw [ofTextOrObject, String.toList_ofList,
      ofText_compact_object (Datum.read_compact hshort hsettled), ofObject_eq]
    rfl

theorem Effect.readAlike_compact (hsettled : (Datum.object ms).settle = .object ms)
    (hshort : (Datum.object ms).hasTooLong = false) :
    ReadAlike ofTextOrObject ofDatum .verbatim asWritten (.object ms)
      (String.ofList (Datum.object ms).compact) := by
  refine readAlike_of_orKept (mirrors_ofDatum _) rfl ?_ ?_
  · rw [ofTextOrObject_object, Datum.literal_of_short hshort]
    rfl
  · rw [ofTextOrObject, String.toList_ofList,
      ofText_compact_object (Datum.read_compact hshort hsettled), ofObject_eq]
    rfl

/-- An object in which each name stands once, and whose numbers are not too long, has a text, and
conditions and effects are read from the text like from the object. -/
theorem Datum.object_reads_as_its_text (hsettled : (Datum.object ms).settle = .object ms)
    (hshort : (Datum.object ms).hasTooLong = false) :
    ∃ cs, (Datum.object ms).literal = .ok cs ∧
      ReadAlike Condition.ofTextOrObject Condition.ofDatum .verbatim Condition.asWritten
        (.object ms) (String.ofList cs) ∧
      ReadAlike Effect.ofTextOrObject Effect.ofDatum .verbatim Effect.asWritten
        (.object ms) (String.ofList cs) :=
  ⟨_, literal_of_short hshort, Condition.readAlike_compact hsettled hshort,
    Effect.readAlike_compact hsettled hshort⟩

/-- An object of an unknown kind, with an object and an undefined number in it. -/
def omen : List (String × Datum) :=
  [("type", .text "omen"), ("of", .object [("bird", .text "raven")]),
    ("value", .number (.float (.undefined .arisen)))]

/-- The text of the omen. -/
def omenText : String :=
  "\x7b\"type\":\"omen\",\"of\":\x7b\"bird\":\"raven\"\x7d,\"value\":NaN\x7d"

theorem Datum.object_reads_as_its_text_omen :
    (Datum.object omen).settle = .object omen ∧ (Datum.object omen).hasTooLong = false ∧
    (Datum.object omen).literal = .ok omenText.toList ∧
    Condition.ofTextOrObject (.object omen) = .ok (some (.verbatim omenText)) ∧
    Condition.ofTextOrObject (.text omenText) = .ok (some (.verbatim omenText)) ∧
    Effect.ofTextOrObject (.object omen) = .ok (some (.verbatim omenText)) ∧
    Effect.ofTextOrObject (.text omenText) = .ok (some (.verbatim omenText)) := by
  have hsettled : (Datum.object omen).settle = .object omen := rfl
  have hliteral : (Datum.object omen).literal = .ok omenText.toList := by decide +kernel
  have hshort : (Datum.object omen).hasTooLong = false := rfl
  obtain ⟨cs, hcs, hcondition, heffect⟩ := object_reads_as_its_text hsettled hshort
  obtain rfl := Except.ok.inj (hliteral.symm.trans hcs)
  rw [String.ofList_toList] at hcondition heffect
  obtain ⟨hobject, htext⟩ := hcondition.kept _ rfl
  obtain ⟨hobject', htext'⟩ := heffect.kept _ rfl
  exact ⟨hsettled, hshort, hliteral, hobject, htext, hobject', htext'⟩

/-- An object that describes a condition, but has no text that could be read. -/
theorem Datum.long_object_has_no_text :
    Condition.longInteger.toDatum.settle = Condition.longInteger.toDatum ∧
    Condition.longInteger.toDatum.asWritten = Condition.longInteger.toDatum ∧
    Condition.ofTextOrObject Condition.longInteger.toDatum = .ok (some .longInteger) ∧
    (Condition.longInteger.toDatum.literal >>= fun cs =>
      Condition.ofTextOrObject (.text (String.ofList cs))) = .error .tooLong := by
  have hlong := Number.isTooLong_ten_pow (Nat.le_refl Numeral.maxDigits)
  unfold Condition.longInteger
  generalize (10 : Int) ^ Numeral.maxDigits = n at hlong ⊢
  have hdatum : (Condition.variableIs "k" .equal (.number (.int n))).toDatum.hasTooLong = true := by
    simp [Condition.toDatum, hasTooLong, memberTooLong, Scalar.toDatum, hlong]
  have hread : Condition.ofTextOrObject (Condition.variableIs "k" .equal (.number (.int n))).toDatum =
      .ok (some (.variableIs "k" .equal (.number (.int n)))) :=
    Condition.ofTextOrObject_toDatum (.variableIs (by decide)) fun _ => Condition.noConfusion
  refine ⟨rfl, rfl, hread, ?_⟩
  rw [literal_of_tooLong hdatum]
  rfl

end

end Gamebook
