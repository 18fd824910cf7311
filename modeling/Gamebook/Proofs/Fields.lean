import Gamebook.Edited
import Gamebook.Proofs.PlainKey

/-!
# Fields and texts

Editors build conditions and effects from fields, authors write the same fields one behind the other
as a text.  With a plain key, and a value that is no part of the sign in front of it, both ways give the
same thing (`Edited.Same`).  Where the value has to be a number, nothing is built from another one, and
its text is kept verbatim (`Edited.SameNumber`).  A time window that is built without two numbers is
the text itself (`Edited.SameWindow`).

Both ways fail for an integer with too many digits.  But a text is read as a time window only if both
bounds are numbers, while fields are read one by one: where only one bound is a number, and that has too
many digits, building fails and the text is kept (`long_bound_not_built`).
-/

namespace Gamebook

open Text (strip cutAt?)

/-! ## What is the same -/

namespace Edited

variable {α : Type}

/-- What is built from fields is what is read from a text. -/
def Same (built : Except RangeError (Option (Edited α))) (read : Except RangeError (Option α)) :
    Prop :=
  ∃ a, built = .ok (some (.built a)) ∧ read = .ok (some a)

/-- What is built from fields with a number, and what is read from a text: the same, unless the number
is none, or has too many digits. -/
inductive SameNumber (number : Except RangeError (Option Number)) (text : α)
    (built : Except RangeError (Option (Edited α))) (read : Except RangeError (Option α)) : Prop where
  | same {n : Number} (hn : number = .ok (some n)) (h : Same built read)
  | kept (hn : number = .ok none) (hbuilt : built = .ok none) (hread : read = .ok (some text))
  | failed {e : RangeError} (hn : number = .error e) (hbuilt : built = .error e)
    (hread : read = .error e)

/-- What is built from two bounds, and what is read from a text: the same, unless a bound has too many
digits.  Then building fails, and reading too if the other bound is a number. -/
inductive SameWindow (start stop : Except RangeError (Option Number)) (text : α)
    (built : Except RangeError (Option (Edited α))) (read : Except RangeError (Option α)) : Prop where
  | same {m n : Option Number} (hstart : start = .ok m) (hstop : stop = .ok n) (h : Same built read)
  | failed {e : RangeError} (h : start = .error e ∧ stop ≠ .ok none ∨
      (∃ n, start = .ok (some n)) ∧ stop = .error e) (hbuilt : built = .error e)
    (hread : read = .error e)
  | kept {e : RangeError} (h : start = .error e ∧ stop = .ok none ∨ start = .ok none ∧ stop = .error e)
    (hbuilt : built = .error e) (hread : read = .ok (some text))

section

variable {a : α} {text : α} {start stop number : Except RangeError (Option Number)}
  {read : Except RangeError (Option α)}

theorem Same.read_eq (h : Same (.ok (some (.built a))) read) : read = .ok (some a) := by
  obtain ⟨b, hbuilt, hread⟩ := h
  cases hbuilt
  exact hread

theorem SameNumber.read_eq (h : SameNumber number text (.ok (some (.built a))) read) :
    read = .ok (some a) := by
  cases h with
  | same _ h => exact h.read_eq
  | kept _ hbuilt => cases hbuilt
  | failed _ hbuilt => cases hbuilt

theorem SameWindow.read_eq (h : SameWindow start stop text (.ok (some (.built a))) read) :
    read = .ok (some a) := by
  cases h with
  | same _ _ h => exact h.read_eq
  | failed _ hbuilt => cases hbuilt
  | kept _ hbuilt => cases hbuilt

/-- With too many digits in the first bound, and no number for the other, the two ways part. -/
theorem SameWindow.of_error {e : RangeError} {built : Except RangeError (Option (Edited α))}
    (h : SameWindow (.error e) (.ok none) text built read) :
    built = .error e ∧ read = .ok (some text) := by
  cases h with
  | same hstart => cases hstart
  | failed h =>
    rcases h with ⟨-, hne⟩ | ⟨-, hstop⟩
    · exact absurd rfl hne
    · cases hstop
  | kept h hbuilt hread =>
    rcases h with ⟨hstart, -⟩ | ⟨hstart, -⟩
    · cases hstart
      exact ⟨hbuilt, hread⟩
    · cases hstart

end

theorem SameNumber.of_map {number : Except RangeError (Option Number)} {text : α}
    {built : Except RangeError (Option (Edited α))} {read : Except RangeError (Option α)}
    {make : Number → α} (hbuilt : built = number.map (Option.map fun n => .built (make n)))
    (hread : read = number.map fun r => some ((r.map make).getD text)) :
    SameNumber number text built read := by
  subst hbuilt hread
  cases number with
  | error e => exact .failed rfl rfl rfl
  | ok r =>
    cases r with
    | none => exact .kept rfl rfl rfl
    | some n => exact .same rfl ⟨_, rfl, rfl⟩

theorem numberOf?_text (s : String) :
    numberOf? (.text s) = Number.ofNotation? (strip s.toList) := rfl

theorem operatorOf?_text {β : Type} (ofSign? : String → Option β) {sign : String} (h : sign ≠ "") :
    operatorOf? ofSign? (.text sign) = ofSign? sign := by
  unfold operatorOf?
  split
  · next heq => cases heq
  · next heq => exact absurd (Datum.text.inj heq) h
  · next heq => rw [Datum.text.inj heq]
  · next hnot => exact absurd rfl (hnot sign)

end Edited

/-- The value of a field that does not add to the sign in front of it: a text that ends a line, has no
blanks around it and does not begin with an equals sign. -/
structure PlainValue (value : String) : Prop where
  nonempty : value ≠ ""
  single : '\n' ∉ value.toList
  stripped : strip value.toList = value.toList
  head_ne : value.toList.head? ≠ some '='

theorem PlainValue.endsLine {value : String} (h : PlainValue value) : EndsLine value.toList :=
  .of_strip (fun hnil => h.nonempty (String.toList_eq_nil_iff.1 hnil)) h.single h.stripped

theorem PlainKey.isEmpty_text {key : String} (h : PlainKey key) : (Datum.text key).isEmpty = false := by
  simp [Datum.isEmpty, h.nonempty]

theorem toList_assignment (form key value : String) : (form ++ key ++ "=" ++ value).toList =
    form.toList ++ (key.toList ++ '=' :: value.toList) := by
  simp

theorem toList_comparison (form key sign value : String) : (form ++ key ++ sign ++ value).toList =
    form.toList ++ (key.toList ++ (sign.toList ++ value.toList)) := by
  simp

/-! ## Time windows -/

namespace Condition

/-- A hyphen in the first bound is no harm: there is no number on either side of it. -/
theorem ofWindow?_append (start stop : List Char) : ofWindow? (start ++ '-' :: stop) =
    match Number.Parts.ofDigits? false start, Number.Parts.ofDigits? false stop with
    | some a, some b => do return some (.during (← a.toNumber) (← b.toNumber))
    | _, _ => .ok none := by
  have hminus : ∀ {cs}, '-' ∈ cs → Number.Parts.ofDigits? false cs = none := by
    intro cs hmem
    refine Option.eq_none_iff_forall_ne_some.2 fun p hp => ?_
    have hchar := Number.of_mem_of_ofDigits? hp _ hmem
    revert hchar
    decide
  by_cases hstart : '-' ∈ start
  · obtain ⟨a, b, rfl, ha⟩ := List.eq_append_cons_of_mem hstart
    have hbehind : '-' ∈ b ++ '-' :: stop := List.mem_append_right _ List.mem_cons_self
    have hcut : cutAt? '-' (a ++ '-' :: b ++ '-' :: stop) = some (a, b ++ '-' :: stop) := by
      rw [List.append_assoc, List.cons_append, Text.cutAt?_append ha]
    unfold ofWindow?
    rw [hcut, hminus hstart]
    simp only [hminus hbehind]
    cases Number.Parts.ofDigits? false a <;> rfl
  · unfold ofWindow?
    rewrite [Text.cutAt?_append hstart]
    rfl

theorem ofText_time {start stop : List Char} (hstop : EndsLine stop) :
    ofText ("time:".toList ++ (start ++ '-' :: stop)) =
      (ofWindow? (start ++ '-' :: stop)).map fun r =>
        some (r.getD (.verbatim (String.ofList ("time:".toList ++ (start ++ '-' :: stop))))) := by
  rw [ofText_append opens_time, hstop.stripEnd_cons, ofShorthand?_time]

end Condition

theorem Number.ofNotation?_of_head_ne {cs : List Char} (h : cs.head? ≠ some '-') :
    ofNotation? cs =
      match Parts.ofDigits? false cs with
      | some parts => parts.toNumber.map some
      | none => .ok none := by
  have hminus : cutMinus cs = (false, cs) := cutMinus_signText false h
  unfold ofNotation? Parts.ofPlain?
  rewrite [hminus]
  rfl

/-! ## Fields -/

section

variable {key value : String} (hkey : PlainKey key) (hvalue : PlainValue value)
include hkey hvalue

theorem ofFields_window :
    Condition.ofFields (.text "timeWindow") (.text key) (.text "-") (.text value) =
      Number.ofNotation? key.toList >>= fun start => Number.ofNotation? value.toList >>= fun stop =>
        match start, stop with
        | some a, some b => .ok (some (.built (.during a b)))
        | _, _ => .ok (some (.built (.verbatim ("time:" ++ key ++ "-" ++ value)))) := by
  have hverbatim : Edited.verbatimText ["time:".toList, (Datum.text key).plain, ['-'],
      (Datum.text value).plain] = "time:" ++ key ++ "-" ++ value :=
    String.toList_inj.1 (by simp [Edited.verbatimText, Datum.plain])
  unfold Condition.ofFields
  simp only [hkey.isEmpty_text, hverbatim, Edited.numberOf?_text, hkey.stripped, hvalue.stripped]
  rfl

/-- The cases are those of the bounds, which are read in the same order both ways. -/
theorem sameWindow_window (hstart : key.toList.head? ≠ some '-')
    (hstop : value.toList.head? ≠ some '-') :
    Edited.SameWindow (Number.ofNotation? key.toList) (Number.ofNotation? value.toList)
      (.verbatim ("time:" ++ key ++ "-" ++ value))
      (Condition.ofFields (.text "timeWindow") (.text key) (.text "-") (.text value))
      (Condition.ofTextOrObject (.text ("time:" ++ key ++ "-" ++ value))) := by
  have htext := toList_comparison "time:" key "-" value
  have hread : Condition.ofTextOrObject (.text ("time:" ++ key ++ "-" ++ value)) =
      (Condition.ofWindow? (key.toList ++ '-' :: value.toList)).map fun r =>
        some (r.getD (.verbatim ("time:" ++ key ++ "-" ++ value))) := by
    rw [Condition.ofTextOrObject, htext]
    refine (Condition.ofText_time hvalue.endsLine).trans ?_
    rw [show "time:".toList ++ (key.toList ++ '-' :: value.toList) = _ from htext.symm,
      String.ofList_toList]
  rw [ofFields_window hkey hvalue, hread, Condition.ofWindow?_append,
    Number.ofNotation?_of_head_ne hstart, Number.ofNotation?_of_head_ne hstop]
  cases Number.Parts.ofDigits? false key.toList with
  | none =>
    cases Number.Parts.ofDigits? false value.toList with
    | none => exact .same rfl rfl ⟨_, rfl, rfl⟩
    | some b =>
      simp only
      cases hb : b.toNumber with
      | ok n => exact .same rfl rfl ⟨_, rfl, rfl⟩
      | error e => exact .kept (.inr ⟨rfl, rfl⟩) rfl rfl
  | some a =>
    cases Number.Parts.ofDigits? false value.toList with
    | none =>
      simp only
      cases ha : a.toNumber with
      | ok m => exact .same rfl rfl ⟨_, rfl, rfl⟩
      | error e => exact .kept (.inl ⟨rfl, rfl⟩) rfl rfl
    | some b =>
      simp only
      cases ha : a.toNumber with
      | error e =>
        refine .failed (.inl ⟨rfl, ?_⟩) rfl rfl
        cases b.toNumber <;> rintro ⟨⟩
      | ok m =>
        cases hb : b.toNumber with
        | ok n => exact .same rfl rfl ⟨_, rfl, rfl⟩
        | error e => exact .failed (.inr ⟨⟨m, rfl⟩, rfl⟩) rfl rfl

theorem same_flag :
    Edited.Same (Condition.ofFields (.text "flag") (.text key) (.text "=") (.text value))
      (Condition.ofTextOrObject (.text ("flag:" ++ key ++ "=" ++ value))) := by
  have htext := toList_assignment "flag:" key value
  refine ⟨.flagIs key (Tagged.truthOfText value.toList), ?_, ?_⟩
  · unfold Condition.ofFields
    simp only [hkey.isEmpty_text]
    rfl
  · rw [Condition.ofTextOrObject, htext, hkey.ofText_flag hvalue.endsLine]

theorem sameNumber_resource {sign : String} {relation : Relation}
    (hsign : Relation.ofSign? sign = some relation) :
    Edited.SameNumber (Number.ofNotation? value.toList)
      (.verbatim ("resource:" ++ key ++ sign ++ value))
      (Condition.ofFields (.text "resource") (.text key) (.text sign) (.text value))
      (Condition.ofTextOrObject (.text ("resource:" ++ key ++ sign ++ value))) := by
  have htext := toList_comparison "resource:" key sign value
  have hne : sign ≠ "" := by
    rintro rfl
    cases hsign
  have hbuilt : Condition.ofFields (.text "resource") (.text key) (.text sign) (.text value) =
      (Number.ofNotation? value.toList).map
        (Option.map fun n => .built (.resourceIs key relation n)) := by
    unfold Condition.ofFields
    simp only [hkey.isEmpty_text, Edited.numberOf?_text, hvalue.stripped,
      Edited.operatorOf?_text _ hne, hsign]
    cases Number.ofNotation? value.toList with
    | error e => rfl
    | ok n => cases n <;> rfl
  have hread := hkey.ofText_resource hsign hvalue.endsLine hvalue.head_ne
  rw [hvalue.stripped, ← htext, String.ofList_toList] at hread
  exact .of_map hbuilt hread

theorem same_variable {sign : String} {likeness : Likeness}
    (hsign : Likeness.ofSign? sign = some likeness) (hlikeness : likeness ≠ .containing) :
    Edited.Same (Condition.ofFields (.text "variable") (.text key) (.text sign) (.text value))
      (Condition.ofTextOrObject (.text ("variable:" ++ key ++ sign ++ value))) := by
  have htext := toList_comparison "variable:" key sign value
  have hne : sign ≠ "" := by
    rintro rfl
    cases hsign
  refine ⟨.variableIs key likeness (.text value), ?_, ?_⟩
  · unfold Condition.ofFields
    simp only [hkey.isEmpty_text, Edited.operatorOf?_text _ hne, hsign, Edited.textOf, Datum.plain,
      String.ofList_toList]
    rfl
  · rw [Condition.ofTextOrObject, htext, hkey.ofText_variable hsign hlikeness hvalue.endsLine
      fun _ => hvalue.head_ne, String.ofList_toList]

theorem same_setFlag :
    Edited.Same (Effect.ofFields (.text "setFlag") (.text key) (.text value))
      (Effect.ofTextOrObject (.text ("setFlag:" ++ key ++ "=" ++ value))) := by
  have htext := toList_assignment "setFlag:" key value
  refine ⟨.setFlag key (Tagged.truthOfText value.toList), ?_, ?_⟩
  · unfold Effect.ofFields
    simp only [hkey.isEmpty_text]
    rfl
  · rw [Effect.ofTextOrObject, htext, hkey.ofText_setFlag hvalue.endsLine]

theorem sameNumber_addResource :
    Edited.SameNumber (Number.ofNotation? value.toList)
      (.verbatim ("addResource:" ++ key ++ "=" ++ value))
      (Effect.ofFields (.text "addResource") (.text key) (.text value))
      (Effect.ofTextOrObject (.text ("addResource:" ++ key ++ "=" ++ value))) := by
  have htext := toList_assignment "addResource:" key value
  have hbuilt : Effect.ofFields (.text "addResource") (.text key) (.text value) =
      (Number.ofNotation? value.toList).map
        (Option.map fun n => .built (.addResource key n)) := by
    unfold Effect.ofFields
    simp only [hkey.isEmpty_text, Edited.numberOf?_text, hvalue.stripped]
    cases Number.ofNotation? value.toList with
    | error e => rfl
    | ok n => cases n <;> rfl
  have hread := hkey.ofText_addResource hvalue.endsLine
  rw [← htext, String.ofList_toList] at hread
  exact .of_map hbuilt hread

theorem same_setVariable :
    Edited.Same (Effect.ofFields (.text "setVariable") (.text key) (.text value))
      (Effect.ofTextOrObject (.text ("setVariable:" ++ key ++ "=" ++ value))) := by
  have htext := toList_assignment "setVariable:" key value
  refine ⟨.setVariable key (.text value), ?_, ?_⟩
  · unfold Effect.ofFields
    simp only [hkey.isEmpty_text, Edited.textOf, Datum.plain, String.ofList_toList]
    rfl
  · rw [Effect.ofTextOrObject, htext, hkey.ofText_setVariable hvalue.endsLine,
      String.ofList_toList]

/-- With a plain key and a plain value, the same flags, tests of variables and effects are built from
fields as are read from the text of the fields.  So are tests of resources and amounts if the value is a
number; from another one nothing is built and the text is kept verbatim.  So are time windows, unless a
bound has too many digits and the other one is no number.  Numbers fail only for too many digits. -/
theorem fields_match_text :
    Edited.Same (Condition.ofFields (.text "flag") (.text key) (.text "=") (.text value))
      (Condition.ofTextOrObject (.text ("flag:" ++ key ++ "=" ++ value))) ∧
    (∀ {sign : String} {relation : Relation}, Relation.ofSign? sign = some relation →
      Edited.SameNumber (Number.ofNotation? value.toList)
        (.verbatim ("resource:" ++ key ++ sign ++ value))
        (Condition.ofFields (.text "resource") (.text key) (.text sign) (.text value))
        (Condition.ofTextOrObject (.text ("resource:" ++ key ++ sign ++ value)))) ∧
    (∀ {sign : String} {likeness : Likeness}, Likeness.ofSign? sign = some likeness →
      likeness ≠ .containing →
      Edited.Same (Condition.ofFields (.text "variable") (.text key) (.text sign) (.text value))
        (Condition.ofTextOrObject (.text ("variable:" ++ key ++ sign ++ value)))) ∧
    (key.toList.head? ≠ some '-' → value.toList.head? ≠ some '-' →
      Edited.SameWindow (Number.ofNotation? key.toList) (Number.ofNotation? value.toList)
        (.verbatim ("time:" ++ key ++ "-" ++ value))
        (Condition.ofFields (.text "timeWindow") (.text key) (.text "-") (.text value))
        (Condition.ofTextOrObject (.text ("time:" ++ key ++ "-" ++ value)))) ∧
    Edited.Same (Effect.ofFields (.text "setFlag") (.text key) (.text value))
      (Effect.ofTextOrObject (.text ("setFlag:" ++ key ++ "=" ++ value))) ∧
    Edited.SameNumber (Number.ofNotation? value.toList)
      (.verbatim ("addResource:" ++ key ++ "=" ++ value))
      (Effect.ofFields (.text "addResource") (.text key) (.text value))
      (Effect.ofTextOrObject (.text ("addResource:" ++ key ++ "=" ++ value))) ∧
    Edited.Same (Effect.ofFields (.text "setVariable") (.text key) (.text value))
      (Effect.ofTextOrObject (.text ("setVariable:" ++ key ++ "=" ++ value))) ∧
    ∀ {cs : List Char} {e : RangeError}, Number.ofNotation? cs = .error e →
      ∃ count, Numeral.maxDigits < count ∧ e = .tooManyDigits count :=
  ⟨same_flag hkey hvalue, sameNumber_resource hkey hvalue, same_variable hkey hvalue,
    sameWindow_window hkey hvalue, same_setFlag hkey hvalue, sameNumber_addResource hkey hvalue,
    same_setVariable hkey hvalue, Number.tooMany_of_ofNotation?⟩

end

theorem fields_match_text_seven : PlainKey "7" ∧ PlainValue "12" ∧
    Condition.ofFields (.text "resource") (.text "7") (.text "=") (.text "12") =
      .ok (some (.built (.resourceIs "7" .equal (.int 12)))) ∧
    Condition.ofTextOrObject (.text "resource:7=12") =
      .ok (some (.resourceIs "7" .equal (.int 12))) ∧
    Condition.ofFields (.text "timeWindow") (.text "7") (.text "-") (.text "12") =
      .ok (some (.built (.during (.int 7) (.int 12)))) ∧
    Condition.ofTextOrObject (.text "time:7-12") = .ok (some (.during (.int 7) (.int 12))) ∧
    Effect.ofFields (.text "setVariable") (.text "7") (.text "12") =
      .ok (some (.built (.setVariable "7" (.text "12")))) ∧
    Effect.ofTextOrObject (.text "setVariable:7=12") =
      .ok (some (.setVariable "7" (.text "12"))) := by
  have hkey : PlainKey "7" := by decide
  have hvalue : PlainValue "12" := ⟨by decide, by decide, by decide, by decide⟩
  obtain ⟨-, hresource, -, hwindow, -, -, hvariable, -⟩ := fields_match_text hkey hvalue
  have hequal : Relation.ofSign? "=" = some .equal := by decide
  exact ⟨hkey, hvalue, rfl, (hresource hequal).read_eq, rfl,
    (hwindow (by decide) (by decide)).read_eq, rfl, hvariable.read_eq⟩

/-- A bound with more digits than are read. -/
def longBound : String :=
  String.ofList (List.replicate (Numeral.maxDigits + 1) '9')

theorem eq_nine_of_mem_longBound {c : Char} (hc : c ∈ longBound.toList) : c = '9' := by
  rw [longBound, String.toList_ofList] at hc
  exact List.eq_of_mem_replicate hc

theorem length_longBound : longBound.toList.length = Numeral.maxDigits + 1 := by
  rw [longBound, String.toList_ofList, List.length_replicate]

theorem longBound_ne_nil : longBound.toList ≠ [] :=
  List.ne_nil_of_length_eq_add_one length_longBound

theorem plainKey_longBound : PlainKey longBound := by
  refine ⟨fun hnil => longBound_ne_nil (hnil ▸ rfl), Text.strip_of_forall fun c hc => ?_,
    fun c hc => ?_⟩
  · rw [eq_nine_of_mem_longBound hc]
    decide
  · rw [eq_nine_of_mem_longBound hc]
    decide

theorem head?_longBound_ne_minus : longBound.toList.head? ≠ some '-' := fun hhead =>
  absurd (eq_nine_of_mem_longBound (List.mem_of_mem_head? hhead)) (by decide)

theorem ofNotation?_longBound : Number.ofNotation? longBound.toList =
    .error (.tooManyDigits (Numeral.maxDigits + 1)) := by
  have hdigits : ∀ c ∈ longBound.toList, Numeral.isDigit c = true := fun c hc => by
    rw [eq_nine_of_mem_longBound hc]
    decide
  have hlong : Numeral.maxDigits < longBound.toList.length := by
    rw [length_longBound]
    exact Nat.lt_succ_self _
  rw [Number.ofNotation?_of_head_ne head?_longBound_ne_minus,
    Number.Parts.ofDigits?_of_forall _ longBound_ne_nil hdigits]
  simp only [Number.Parts.toNumber_of_lt _ hlong, length_longBound]
  rfl

/-- A time window from that bound until noon is not built, and its text is kept verbatim. -/
theorem long_bound_not_built : PlainKey longBound ∧ PlainValue "noon" ∧
    longBound.toList.head? ≠ some '-' ∧
    Condition.ofFields (.text "timeWindow") (.text longBound) (.text "-") (.text "noon") =
      .error (.tooManyDigits (Numeral.maxDigits + 1)) ∧
    Condition.ofTextOrObject (.text ("time:" ++ longBound ++ "-" ++ "noon")) =
      .ok (some (.verbatim ("time:" ++ longBound ++ "-" ++ "noon"))) := by
  have hvalue : PlainValue "noon" := ⟨by decide, by decide, by decide, by decide⟩
  have hnoon : Number.ofNotation? "noon".toList = .ok none := rfl
  have hwindow := sameWindow_window plainKey_longBound hvalue head?_longBound_ne_minus (by decide)
  rw [ofNotation?_longBound, hnoon] at hwindow
  exact ⟨plainKey_longBound, hvalue, head?_longBound_ne_minus, hwindow.of_error⟩

end Gamebook
