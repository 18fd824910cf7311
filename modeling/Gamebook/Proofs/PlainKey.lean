import Gamebook.Proofs.EffectText

/-!
# Shorthand with plain keys

A key stands in shorthand as it is if nothing in it can be taken for what follows the key and no blanks
are around it (`PlainKey`).  Then a text in shorthand is cut behind the key, whatever the rest of it is:
at the equals sign of an assignment (`PlainKey.cutAssignment?_append`), or at the sign of a comparison,
where the only thing to watch is a rest that would make the sign a longer one (`cutRelation?_append`,
`cutLikeness?_append`).  From this follows what each of the readers makes of such a text.
-/

namespace Gamebook

open Text (strip stripEnd)

/-! ## Numbers -/

namespace Number

/-- The number of which a text is the notation, if it is that of one. -/
def ofNotation? (cs : List Char) : Except RangeError (Option Number) :=
  match Parts.ofPlain? cs with
  | some parts => parts.toNumber.map some
  | none => .ok none

theorem map_ofNotation? {α : Type} (make : Number → α) (cs : List Char) :
    (ofNotation? cs).map (Option.map make) =
      match Parts.ofPlain? cs with
      | none => .ok none
      | some parts => do return some (make (← parts.toNumber)) := by
  unfold ofNotation?
  cases Parts.ofPlain? cs with
  | none => rfl
  | some parts =>
    simp only
    cases parts.toNumber <;> rfl

/-- Digits alone are the notation of an integer. -/
theorem Parts.ofDigits?_of_forall (negative : Bool) {ds : List Char} (hne : ds ≠ [])
    (hdigits : ∀ c ∈ ds, Numeral.isDigit c = true) :
    ofDigits? negative ds = some { negative, whole := ds } := by
  have hspan : Numeral.spanDigits ds = (ds, []) := by
    have happend : Numeral.spanDigits (ds ++ []) = (ds, []) :=
      Numeral.spanDigits_append hdigits nofun
    rwa [List.append_nil] at happend
  obtain ⟨c, cs, rfl⟩ := List.exists_cons_of_ne_nil hne
  simp only [ofDigits?, hspan]

theorem Parts.ofPlain?_ofInt (n : Int) :
    ofPlain? (Numeral.ofInt n) = some (ofInteger n) := by
  have hminus : (Numeral.digits n.natAbs).head? ≠ some '-' := by
    intro hhead
    have hdigit := Numeral.isDigit_of_mem_digits _ (List.mem_of_mem_head? hhead)
    revert hdigit
    decide
  unfold ofPlain?
  rw [ofInt_eq, cutMinus_signText _ hminus]
  exact ofDigits?_of_forall _ (Numeral.digits_ne_nil _) Numeral.isDigit_of_mem_digits

theorem isTooLong_of_lt {n : Int} (h : n.natAbs < 10 ^ Numeral.maxDigits) :
    (int n).isTooLong = false :=
  decide_eq_false (Nat.not_lt.2 (Numeral.length_digits_le (by decide) h))

theorem ofNotation?_ofInt {n : Int} (h : n.natAbs < 10 ^ Numeral.maxDigits) :
    ofNotation? (Numeral.ofInt n) = .ok (some (int n)) := by
  unfold ofNotation?
  rw [Parts.ofPlain?_ofInt]
  simp only [Parts.toNumber_ofInteger (isTooLong_of_lt h)]
  rfl

theorem Parts.toNumber_of_lt (negative : Bool) {ds : List Char}
    (h : Numeral.maxDigits < ds.length) :
    toNumber { negative, whole := ds } = .error (.tooManyDigits ds.length) := by
  show (toInt { negative, whole := ds }).map int = _
  unfold toInt
  rw [if_pos h]
  rfl

theorem ofNotation?_of_isTooLong {n : Int} (h : (int n).isTooLong = true) :
    ofNotation? (Numeral.ofInt n) =
      .error (.tooManyDigits (Numeral.digits n.natAbs).length) := by
  unfold ofNotation?
  rw [Parts.ofPlain?_ofInt]
  simp only [Parts.ofInteger, Parts.toNumber_of_lt _ (of_decide_eq_true h)]
  rfl

/-- A text that looks like a number fails to be one only for its many digits. -/
theorem tooMany_of_ofNotation? {cs : List Char} {e : RangeError} (h : ofNotation? cs = .error e) :
    ∃ count, Numeral.maxDigits < count ∧ e = .tooManyDigits count := by
  unfold ofNotation? at h
  split at h
  · next parts _ =>
    unfold Parts.toNumber Parts.toInt at h
    split at h
    · split at h
      · next hlong =>
        cases h
        exact ⟨_, hlong, rfl⟩
      · cases h
    · cases h
  · cases h

theorem isNumeralChar_of_mem_ofInt {n : Int} {c : Char} (hc : c ∈ Numeral.ofInt n) :
    IsNumeralChar c := by
  rw [← Parts.text_ofInteger] at hc
  exact isNumeralChar_of_mem_text (Parts.wellFormed_ofInteger n) hc

theorem strip_ofInt (n : Int) : strip (Numeral.ofInt n) = Numeral.ofInt n :=
  Text.strip_of_forall fun _ hc => isBlank_of_isNumeralChar (isNumeralChar_of_mem_ofInt hc)

theorem head?_ofInt_ne_equals (n : Int) : (Numeral.ofInt n).head? ≠ some '=' := by
  intro hhead
  have hchar := isNumeralChar_of_mem_ofInt (List.mem_of_mem_head? hhead)
  revert hchar
  unfold IsNumeralChar
  decide

end Number

/-! ## Signs -/

theorem Relation.sign_cases {sign : String} {relation : Relation}
    (h : ofSign? sign = some relation) :
    sign = relation.sign ∨ sign = "=" ∧ relation = .equal := by
  unfold ofSign? at h
  split at h
  · next hsign => exact .inr ⟨hsign, (Option.some.inj h).symm⟩
  · have hfound : (relation.sign == sign) = true := by simpa using List.find?_some h
    exact .inl (eq_of_beq hfound).symm

theorem Likeness.sign_cases {sign : String} {likeness : Likeness}
    (h : ofSign? sign = some likeness) :
    sign = likeness.sign ∨ sign = "=" ∧ likeness = .equal := by
  unfold ofSign? at h
  split at h
  · next hsign => exact .inr ⟨hsign, (Option.some.inj h).symm⟩
  · have hfound : (likeness.sign == sign) = true := by simpa using List.find?_some h
    exact .inl (eq_of_beq hfound).symm

/-! ## Keys and lines -/

/-- A key that is not empty, has no blanks around it, and in which no character ends a key. -/
structure PlainKey (key : String) : Prop where
  nonempty : key ≠ ""
  stripped : strip key.toList = key.toList
  plain : ∀ c ∈ key.toList, Condition.endsKey c = false

instance (key : String) : Decidable (PlainKey key) :=
  decidable_of_iff (key ≠ "" ∧ strip key.toList = key.toList ∧
      key.toList.all (!Condition.endsKey ·) = true)
    ⟨fun ⟨hne, hstrip, hall⟩ => ⟨hne, hstrip, by simpa using hall⟩,
      fun h => ⟨h.nonempty, h.stripped, by simpa using h.plain⟩⟩

/-- What ends a line: a text that is not empty, has no line break and no blanks at its end. -/
structure EndsLine (cs : List Char) : Prop where
  nonempty : cs ≠ []
  single : '\n' ∉ cs
  trimmed : stripEnd cs = cs

namespace EndsLine

variable {cs : List Char} (h : EndsLine cs)
include h

theorem isLine : Condition.isLine cs = true := by
  simp [Condition.isLine, h.nonempty, h.single]

theorem stripEnd_append (front : List Char) : stripEnd (front ++ cs) = front ++ cs := by
  rw [Text.stripEnd_append, h.trimmed, if_neg h.nonempty]

theorem stripEnd_append_append (front sign : List Char) :
    stripEnd (front ++ (sign ++ cs)) = front ++ (sign ++ cs) := by
  rw [← List.append_assoc, h.stripEnd_append]

theorem stripEnd_cons (front : List Char) (c : Char) :
    stripEnd (front ++ c :: cs) = front ++ c :: cs := by
  rw [List.append_cons, h.stripEnd_append]

end EndsLine

theorem EndsLine.of_strip {cs : List Char} (hne : cs ≠ []) (hsingle : '\n' ∉ cs)
    (hstrip : strip cs = cs) : EndsLine cs :=
  ⟨hne, hsingle, Text.stripEnd_eq_self (hstrip ▸ Text.getLast?_strip cs)⟩

theorem EndsLine.ofInt (n : Int) : EndsLine (Numeral.ofInt n) := by
  refine .of_strip ?_ (fun hbreak => ?_) (Number.strip_ofInt n)
  · rw [Number.ofInt_eq]
    exact List.append_ne_nil_of_right_ne_nil _ (Numeral.digits_ne_nil _)
  · have hblank := Number.isBlank_of_isNumeralChar (Number.isNumeralChar_of_mem_ofInt hbreak)
    revert hblank
    decide

namespace Condition

section

variable {front rest : List Char} (hfront : ∀ c ∈ front, endsKey c = false)
  (hrest : ∀ c ∈ rest.head?, endsKey c = true)
include hfront hrest

theorem takeWhile_append : (front ++ rest).takeWhile (!endsKey ·) = front := by
  rw [List.takeWhile_append_of_pos fun c hc => by simp [hfront c hc]]
  cases rest with
  | nil => simp
  | cons c cs => simp [hrest c rfl]

theorem dropWhile_append : (front ++ rest).dropWhile (!endsKey ·) = rest := by
  rw [List.dropWhile_append_of_pos fun c hc => by simp [hfront c hc]]
  cases rest with
  | nil => simp
  | cons c cs => simp [hrest c rfl]

end

/-! ### Signs behind a key -/

theorem endsKey_relation {sign : String} {relation : Relation}
    (h : Relation.ofSign? sign = some relation) (rest : List Char) :
    ∀ c ∈ (sign.toList ++ rest).head?, endsKey c = true := by
  rcases Relation.sign_cases h with rfl | ⟨rfl, rfl⟩
  · cases relation <;> rintro _ ⟨⟩ <;> decide
  · rintro _ ⟨⟩
    decide

theorem endsKey_likeness {sign : String} {likeness : Likeness}
    (h : Likeness.ofSign? sign = some likeness) (hne : likeness ≠ .containing) (rest : List Char) :
    ∀ c ∈ (sign.toList ++ rest).head?, endsKey c = true := by
  rcases Likeness.sign_cases h with rfl | ⟨rfl, rfl⟩
  · cases likeness <;> first | exact absurd rfl hne | (rintro _ ⟨⟩; decide)
  · rintro _ ⟨⟩
    decide

/-- The sign of a relation is the longest one unless an equals sign follows. -/
theorem cutRelation?_append {sign : String} {relation : Relation}
    (h : Relation.ofSign? sign = some relation) {rest : List Char} (hrest : rest.head? ≠ some '=') :
    cutRelation? (sign.toList ++ rest) = some (relation, rest) := by
  have hne : ∀ cs, rest ≠ '=' :: cs := by
    rintro cs rfl
    exact hrest rfl
  rcases Relation.sign_cases h with rfl | ⟨rfl, rfl⟩
  · cases relation with
    | atLeast | atMost | equal => rfl
    | more | less => simp [Relation.sign, cutRelation?]
  · simp [cutRelation?]

/-- The sign of a likeness is the longest one unless it is a single equals sign and another one
follows. -/
theorem cutLikeness?_append {sign : String} {likeness : Likeness}
    (h : Likeness.ofSign? sign = some likeness) (hne : likeness ≠ .containing) {line : List Char}
    (hline : line ≠ []) (hequals : sign = "=" → line.head? ≠ some '=') :
    cutLikeness? (sign.toList ++ line) = some (likeness, line) := by
  obtain ⟨c, cs, rfl⟩ := List.exists_cons_of_ne_nil hline
  rcases Likeness.sign_cases h with rfl | ⟨rfl, rfl⟩
  · cases likeness with
    | equal | unequal | lacking => rfl
    | containing => exact absurd rfl hne
  · have hc : c ≠ '=' := fun heq => hequals rfl (congrArg some heq)
    simp [cutLikeness?, hc]

end Condition

namespace PlainKey

open Condition

variable {key : String} (h : PlainKey key)
include h

theorem not_mem {c : Char} (hc : endsKey c = true) : c ∉ key.toList := by
  intro hmem
  rw [h.plain c hmem] at hc
  cases hc

theorem toList_ne_nil : key.toList ≠ [] := fun hnil => h.nonempty (String.toList_eq_nil_iff.1 hnil)

/-! ### Reading behind a key -/

theorem cutAssignment?_append {line : List Char} (hline : EndsLine line) :
    cutAssignment? (key.toList ++ '=' :: line) = some (key, line) := by
  unfold cutAssignment?
  rw [Text.cutAt?_append (h.not_mem (by decide))]
  simp only [h.stripped, List.isEmpty_eq_false_iff.2 h.toList_ne_nil, hline.isLine, Bool.not_true,
    Bool.or_self, Bool.false_eq_true, ↓reduceIte, String.ofList_toList]

theorem ofResource?_append {sign : String} {relation : Relation}
    (hsign : Relation.ofSign? sign = some relation) {line : List Char}
    (hline : EndsLine line) (hequals : line.head? ≠ some '=') :
    ofResource? (key.toList ++ (sign.toList ++ line)) =
      (Number.ofNotation? (strip line)).map (Option.map (.resourceIs key relation)) := by
  have hends := endsKey_relation hsign line
  unfold ofResource?
  rw [takeWhile_append h.plain hends, dropWhile_append h.plain hends,
    cutRelation?_append hsign hequals]
  simp only [h.stripped, List.isEmpty_eq_false_iff.2 h.toList_ne_nil,
    List.contains_eq_mem, hline.single, decide_false, Bool.or_self, Bool.false_eq_true, ↓reduceIte,
    String.ofList_toList]
  exact (Number.map_ofNotation? (resourceIs key relation) (strip line)).symm

theorem ofVariable?_append {sign : String} {likeness : Likeness}
    (hsign : Likeness.ofSign? sign = some likeness) (hne : likeness ≠ .containing)
    {line : List Char} (hline : EndsLine line) (hequals : sign = "=" → line.head? ≠ some '=') :
    ofVariable? (key.toList ++ (sign.toList ++ line)) =
      some (.variableIs key likeness (.text (String.ofList line))) := by
  have hends := endsKey_likeness hsign hne line
  have hcut := cutLikeness?_append hsign hne hline.nonempty hequals
  obtain ⟨c, cs, hkey⟩ := List.exists_cons_of_ne_nil h.toList_ne_nil
  obtain ⟨hc, hcs⟩ := List.forall_mem_cons.1 (hkey ▸ h.plain)
  have hvariable : cutVariable? (key.toList ++ (sign.toList ++ line)) =
      some (key.toList, likeness, line) := by
    rw [hkey, List.cons_append, cutVariable?, hc]
    simp only [takeWhile_append hcs hends, dropWhile_append hcs hends, hcut, hline.isLine,
      Bool.false_eq_true, ↓reduceIte]
  unfold ofVariable?
  rw [hvariable]
  simp only [h.stripped, List.isEmpty_eq_false_iff.2 h.toList_ne_nil, Bool.false_eq_true,
    ↓reduceIte, String.ofList_toList]

/-! ### Texts of conditions -/

theorem ofText_flag {line : List Char} (hline : EndsLine line) :
    Condition.ofText ("flag:".toList ++ (key.toList ++ '=' :: line)) =
      .ok (some (.flagIs key (Tagged.truthOfText line))) := by
  rw [Condition.ofText_append opens_flag, hline.stripEnd_cons, ofShorthand?_flag, ofFlag?,
    h.cutAssignment?_append hline]
  rfl

theorem ofText_resource {sign : String} {relation : Relation}
    (hsign : Relation.ofSign? sign = some relation) {line : List Char} (hline : EndsLine line)
    (hequals : line.head? ≠ some '=') :
    Condition.ofText ("resource:".toList ++ (key.toList ++ (sign.toList ++ line))) =
      (Number.ofNotation? (strip line)).map fun number =>
        some ((number.map (.resourceIs key relation)).getD (.verbatim (String.ofList
          ("resource:".toList ++ (key.toList ++ (sign.toList ++ line)))))) := by
  rw [Condition.ofText_append opens_resource, hline.stripEnd_append_append, ofShorthand?_resource,
    h.ofResource?_append hsign hline hequals]
  cases Number.ofNotation? (strip line) <;> rfl

theorem ofText_variable {sign : String} {likeness : Likeness}
    (hsign : Likeness.ofSign? sign = some likeness) (hne : likeness ≠ .containing)
    {line : List Char} (hline : EndsLine line) (hequals : sign = "=" → line.head? ≠ some '=') :
    Condition.ofText ("variable:".toList ++ (key.toList ++ (sign.toList ++ line))) =
      .ok (some (.variableIs key likeness (.text (String.ofList line)))) := by
  rw [Condition.ofText_append opens_variable, hline.stripEnd_append_append, ofShorthand?_variable,
    h.ofVariable?_append hsign hne hline hequals]
  rfl

/-! ### Texts of effects -/

theorem ofText_setFlag {line : List Char} (hline : EndsLine line) :
    Effect.ofText ("setFlag:".toList ++ (key.toList ++ '=' :: line)) =
      .ok (some (.setFlag key (Tagged.truthOfText line))) := by
  rw [Effect.ofText_append_of_simple Effect.opens_setFlag rfl, hline.stripEnd_cons,
    Effect.ofShorthand?_setFlag, Effect.ofSetFlag?, h.cutAssignment?_append hline]
  rfl

theorem ofText_addResource {line : List Char} (hline : EndsLine line) :
    Effect.ofText ("addResource:".toList ++ (key.toList ++ '=' :: line)) =
      (Number.ofNotation? line).map fun number =>
        some ((number.map (.addResource key)).getD (.verbatim (String.ofList
          ("addResource:".toList ++ (key.toList ++ '=' :: line))))) := by
  have hnumber : Effect.ofAddResource? (key.toList ++ '=' :: line) =
      (Number.ofNotation? line).map (Option.map (.addResource key)) := by
    unfold Effect.ofAddResource?
    rw [h.cutAssignment?_append hline]
    exact (Number.map_ofNotation? (Effect.addResource key) line).symm
  rw [Effect.ofText_append_of_simple Effect.opens_addResource rfl, hline.stripEnd_cons,
    Effect.ofShorthand?_addResource, hnumber]
  cases Number.ofNotation? line <;> rfl

theorem ofText_setVariable {line : List Char} (hline : EndsLine line) :
    Effect.ofText ("setVariable:".toList ++ (key.toList ++ '=' :: line)) =
      .ok (some (.setVariable key (.text (String.ofList line)))) := by
  rw [Effect.ofText_append_of_simple Effect.opens_setVariable rfl, hline.stripEnd_cons,
    Effect.ofShorthand?_setVariable, Effect.ofSetVariable?, h.cutAssignment?_append hline]
  rfl

end PlainKey

end Gamebook
