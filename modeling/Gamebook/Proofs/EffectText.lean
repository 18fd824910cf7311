import Gamebook.Proofs.Rendering

/-!
# Effects as text read back

An effect that was read has a text that is read as an effect that agrees with it, as long as the
shorthand of each random or conditional effect in it can be read (`rendered_effect_reads_back`), which
takes more than 308 consecutive digits to fail.  As with conditions, the text is the JSON object or a
shorthand that has been read back.
-/

namespace Gamebook.Effect

open Text (joinWith)

/-! ## Objects -/

/-- A text that begins with a brace is read as the object that it describes. -/
theorem ofText_compact_object {ms : List (String × Datum)} {d : Datum}
    (h : Datum.read (Datum.object ms).compact = .ok d) :
    ofText (Datum.object ms).compact = (ofObject d (.ok (Datum.object ms).compact)).map some := by
  unfold ofText
  rw [Datum.strip_compact_object]
  obtain ⟨cs, hcs⟩ : ∃ cs, (Datum.object ms).compact = '\x7b' :: cs := ⟨_, rfl⟩
  rw [hcs] at h ⊢
  simp only [List.isEmpty_cons, Bool.false_eq_true, ↓reduceIte]
  rw [ofStripped_object rfl, h]

theorem exists_toDatum_eq {e : Effect} (h : ∀ s, e ≠ .verbatim s) :
    ∃ ms, e.toDatum = .object ms := by
  cases e with
  | verbatim s => exact absurd rfl (h s)
  | _ => exact ⟨_, rfl⟩

/-- The datum of an effect that is no verbatim text is read as the effect. -/
theorem ofTextOrObject_toDatum {e : Effect} (h : e.WellFormed)
    (hverbatim : ∀ s, e ≠ .verbatim s) : ofTextOrObject e.toDatum = .ok (some e) := by
  obtain ⟨ms, hms⟩ := exists_toDatum_eq hverbatim
  have he := ofDatum_toDatum h
  rw [hms] at he ⊢
  rw [ofTextOrObject, ofObject_eq, he]
  rfl

/-- The datum of an effect that is no verbatim text is read from its JSON text. -/
theorem ofText_compact_toDatum {e : Effect} (h : e.WellFormed)
    (hvalues : ∀ x ∈ e.values, x.Writable) (hverbatim : ∀ s, e ≠ .verbatim s) :
    ofText e.toDatum.compact = .ok (some e) := by
  obtain ⟨ms, hms⟩ := exists_toDatum_eq hverbatim
  have hread := (readsBack_toDatum h hvalues).read_compact_eq
  have he := ofDatum_toDatum h
  rw [hms] at hread he ⊢
  rw [ofText_compact_object hread, ofObject_eq, he]
  rfl

/-- What is read has the form of an effect, and verbatim text is read as itself. -/
theorem ofTextOrObject_cases {v : Datum} {e : Effect} (hsettled : v.settle = v)
    (h : ofTextOrObject v = .ok (some e)) :
    (∃ s, e = .verbatim s ∧ ofText s.toList = .ok (some e)) ∨ (∀ s, e ≠ .verbatim s) ∧
      ((∀ n ∈ e.numbers, n.isFinite = .ok true) → e.WellFormed) := by
  cases v with
  | text t =>
    rcases reading_of_ofStripped (ofText_eq_ok h) with rfl | he
    · left
      refine ⟨_, rfl, ?_⟩
      rw [String.toList_ofList, ofText_strip]
      exact h
    · exact .inr he
  | object ms =>
    obtain ⟨e', he', heq⟩ := map_eq_ok_iff.1 h
    obtain rfl := Option.some.inj heq
    rw [ofObject_eq] at he'
    rcases orKept_eq_ok he' with hd | ⟨hrefused, hkept⟩
    · exact .inr ⟨ne_verbatim_of_ofDatum hd, fun _ => wellFormed_of_ofDatum _ hd⟩
    · left
      obtain ⟨cs, hliteral, rfl⟩ := map_eq_ok_iff.1 hkept
      refine ⟨_, rfl, ?_⟩
      obtain ⟨hlong, rfl⟩ := Datum.literal_eq_ok hliteral
      have hread := Datum.read_compact hlong hsettled
      rw [← verdict_ofDatum_asWritten] at hrefused
      rw [String.toList_ofList, ofText_compact_object hread, ofObject_eq,
        orKept_of_refused hrefused]
      rfl
  | null => cases h
  | truth b => cases h
  | number n => cases h
  | list items => cases h

/-! ## Rendering and reading -/

/-- The text of an effect that was read is read as an effect that agrees with it.  Numbers must be in
range, the scalars that variables are given or compared with must have a notation, and where the shorthand
of a random or conditional effect has more than 308 consecutive digits, it must be possible to read it
back, to see whether it stands for the same effect. -/
theorem rendered_effect_reads_back {v : Datum} {e : Effect} (hsettled : v.settle = v)
    (hread : ofTextOrObject v = .ok (some e)) (hfinite : ∀ n ∈ e.numbers, n.isFinite = .ok true)
    (hvalues : ∀ x ∈ e.values, x.Writable)
    (hreadable : ∀ shorthand, e.Tried shorthand → Numeral.LongRun shorthand →
      ∃ r, ofText shorthand = .ok r) :
    ∃ text f, e.render = .ok text ∧ ofTextOrObject (.text text) = .ok (some f) ∧
      f.agrees e = true := by
  rcases ofTextOrObject_cases hsettled hread with ⟨s, rfl, htext⟩ | ⟨hverbatim, hwell⟩
  · refine ⟨s, .verbatim s, ?_, htext, beq_self_eq_true s⟩
    rw [render, renderChars]
    show Except.ok (String.ofList s.toList) = _
    rw [String.ofList_toList]
  have hwell := hwell hfinite
  have hnone : ¬ ∃ error, e.renderChars = .error error ∧ Unreadable e error := by
    rintro ⟨error, -, shorthand, htried, hfails⟩
    have hscans := scans_ofText shorthand
    rw [hfails] at hscans
    obtain ⟨r, hr⟩ := hreadable shorthand htried hscans
    rw [hr] at hfails
    cases hfails
  obtain ⟨cs, hrender⟩ :=
    (rendered_or_unreadable hwell (readsBack_toDatum hwell hvalues).short).resolve_right hnone
  obtain ⟨f, htext, hagrees⟩ : ∃ f, ofText cs = .ok (some f) ∧ f.agrees e = true := by
    cases rendered_of_renderChars hrender with
    | verbatim => exact absurd rfl (hverbatim _)
    | object =>
      exact ⟨e, ofText_compact_toDatum hwell hvalues hverbatim, agrees_self hwell hvalues⟩
    | shorthand _ _ hread hagrees => exact ⟨_, hread, hagrees⟩
  refine ⟨String.ofList cs, f, ?_, ?_, hagrees⟩
  · rw [render, hrender]
    rfl
  · rw [ofTextOrObject, String.toList_ofList, htext]

/-- Effects whose parts are easily mistaken: bars, question marks and equals signs inside of keys, texts
and targets, and text that looks like an effect. -/
def tangle : List Effect :=
  [.setVariable "a=b" (.text "x|y"), .addResource "gold" (.int (-12)),
    .provided (.verbatim "flag:?") (.goto "n?|"), .verbatim "randomEffect:|"]

/-- One of them. -/
def tangled : Effect :=
  .oneOf tangle

/-- The shorthand of the random effect and that of the conditional effect in it can be read. -/
theorem readable_of_tried_tangled {shorthand : List Char} (h : tangled.Tried shorthand) :
    ∃ r, ofText shorthand = .ok r := by
  have hsome : ∀ {x : Except RangeError (Option Effect)}, x.toOption.isSome → ∃ r, x = .ok r := by
    rintro (_ | r) hx
    · cases hx
    · exact ⟨r, rfl⟩
  have hrandom : (renderEach tangle).toOption.all fun texts =>
      (ofText ("randomEffect:".toList ++ joinWith ['|'] texts)).toOption.isSome := by
    decide +kernel
  have hconditional : (Condition.verbatim "flag:?").renderChars.toOption.all fun text =>
      (goto "n?|").renderChars.toOption.all fun parts =>
        (ofText ("conditionalEffect:".toList ++ text ++ '?' :: parts)).toOption.isSome := by
    decide +kernel
  cases h with
  | random _ htexts =>
    rw [htexts] at hrandom
    exact hsome hrandom
  | ofMember he h =>
    simp only [tangle, List.mem_cons, List.not_mem_nil, or_false] at he
    rcases he with rfl | rfl | rfl | rfl
    · cases h
    · cases h
    · cases h with
      | conditional htext hparts =>
        rw [htext, hparts] at hconditional
        exact hsome hconditional
      | ofProvided h => cases h
    · cases h

theorem rendered_effect_reads_back_tangled :
    tangled.toDatum.settle = tangled.toDatum ∧
    ofTextOrObject tangled.toDatum = .ok (some tangled) ∧
    (∀ n ∈ tangled.numbers, n.isFinite = .ok true) ∧ (∀ x ∈ tangled.values, x.Writable) ∧
    (∀ shorthand, tangled.Tried shorthand → Numeral.LongRun shorthand →
      ∃ r, ofText shorthand = .ok r) ∧
    ∃ text f, tangled.render = .ok text ∧ ofTextOrObject (.text text) = .ok (some f) ∧
      f.agrees tangled = true := by
  have hgold : (Number.int (-12)).isFinite = .ok true := by decide +kernel
  have hfinite : ∀ n ∈ tangled.numbers, n.isFinite = .ok true := by
    intro n hn
    rw [List.mem_singleton.1 hn]
    exact hgold
  have hvalues : ∀ x ∈ tangled.values, x.Writable := by
    intro x hx
    rw [List.mem_singleton.1 hx]
    trivial
  have hwell : tangled.WellFormed := by
    refine .oneOf ?_
    simp only [tangle, List.forall_mem_cons]
    exact ⟨.setVariable (by decide), .addResource (by decide) hgold, .provided .verbatim .goto,
      .verbatim, List.forall_mem_nil _⟩
  have hsettled := (readsBack_toDatum hwell hvalues).settled
  have hread := ofTextOrObject_toDatum hwell nofun
  have hreadable : ∀ shorthand, tangled.Tried shorthand → Numeral.LongRun shorthand →
      ∃ r, ofText shorthand = .ok r :=
    fun _ htried _ => readable_of_tried_tangled htried
  exact ⟨hsettled, hread, hfinite, hvalues, hreadable,
    rendered_effect_reads_back hsettled hread hfinite hvalues hreadable⟩

/-- A variable that is given an integer of more digits than are written. -/
def longValue : Effect :=
  .setVariable "k" (.number (.int (10 ^ Numeral.maxDigits)))

/-- An effect that is read but not written: an integer in it has too many digits. -/
theorem long_value_not_rendered :
    longValue.toDatum.settle = longValue.toDatum ∧
    ofTextOrObject longValue.toDatum = .ok (some longValue) ∧ longValue.numbers = [] ∧
    (∀ n, Scalar.number n ∈ longValue.values → n.place? ≠ none) ∧
    longValue.render = .error .tooLong := by
  have hlong := Number.isTooLong_ten_pow (Nat.le_refl Numeral.maxDigits)
  unfold longValue
  generalize (10 : Int) ^ Numeral.maxDigits = n at hlong ⊢
  refine ⟨rfl, ?_, rfl, ?_, ?_⟩
  · exact ofTextOrObject_toDatum (.setVariable (by decide)) (fun _ => Effect.noConfusion)
  · intro m hm
    obtain rfl := Scalar.number.inj (List.mem_singleton.1 hm)
    exact Option.some_ne_none _
  · have hdatum : (toDatum (.setVariable "k" (.number (.int n)))).hasTooLong = true := by
      simp [toDatum, Datum.hasTooLong, Datum.memberTooLong, Scalar.toDatum, hlong]
    rw [render, renderChars, shorthandOrObject, Datum.literal_of_tooLong hdatum]
    rfl

end Gamebook.Effect
