import Gamebook.Proofs.NormalEffect
import Gamebook.Proofs.PlainKey

/-!
# What is written on one line

The conditions and effects for which the shorthand is made: tests, windows and effects with plain keys,
integers and texts that end a line, effects that depend on such a condition if there is no question
mark in it, and random effects if there are no bars in their members.  Each has a line (`Condition.Line`,
`Effect.Line`), and it is written as that line, never as an object, and read from it
(`one_line_reads_back`).

The limit is again the number of digits that are written and read (`long_amount_not_rendered`).
-/

namespace Gamebook

open Text (strip stripEnd parts joinWith)

/-! ## Conditions -/

namespace Condition

/-- The line of a condition. -/
inductive Line : Condition → List Char → Prop where
  | flagIs {key : String} (hkey : PlainKey key) (value : Bool) :
    Line (.flagIs key value) ("flag:".toList ++ key.toList ++ '=' :: truthWord value)
  | resourceIs {key : String} (hkey : PlainKey key) (relation : Relation) {n : Int}
      (hn : n.natAbs < 10 ^ Numeral.maxDigits) :
    Line (.resourceIs key relation (.int n))
      ("resource:".toList ++ key.toList ++ relation.sign.toList ++ Numeral.ofInt n)
  | variableIs {key text : String} (hkey : PlainKey key) {likeness : Likeness}
      (hlikeness : likeness ≠ .containing) (htext : EndsLine text.toList) :
    Line (.variableIs key likeness (.text text))
      ("variable:".toList ++ key.toList ++ likeness.sign.toList ++ text.toList)
  | during {start stop : Nat} (hstart : start < 10 ^ Numeral.maxDigits)
      (hstop : stop < 10 ^ Numeral.maxDigits) :
    Line (.during (.int start) (.int stop))
      ("timeWindow:".toList ++ Numeral.digits start ++ '-' :: Numeral.digits stop)

theorem endsLine_truthWord (value : Bool) : EndsLine (truthWord value) := by
  cases value with
  | true => exact .of_strip (by decide) (by decide) (by decide)
  | false => exact .of_strip (by decide) (by decide) (by decide)

theorem truthOfText_truthWord (value : Bool) : Tagged.truthOfText (truthWord value) = value := by
  cases value <;> decide

theorem ofWindow?_digits {start stop : Nat} (hstart : start < 10 ^ Numeral.maxDigits)
    (hstop : stop < 10 ^ Numeral.maxDigits) :
    ofWindow? (Numeral.digits start ++ '-' :: Numeral.digits stop) =
      .ok (some (.during (.int start) (.int stop))) := by
  have hminus : '-' ∉ Numeral.digits start := fun hmem =>
    absurd (Numeral.isDigit_of_mem_digits _ hmem) (by decide)
  have hparts : ∀ n : Nat, Number.Parts.ofDigits? false (Numeral.digits n) =
      some (.ofInteger n) := fun n =>
    Number.Parts.ofDigits?_of_forall _ (Numeral.digits_ne_nil n) Numeral.isDigit_of_mem_digits
  have hnumber : ∀ n : Nat, n < 10 ^ Numeral.maxDigits →
      (Number.Parts.ofInteger n).toNumber = .ok (.int n) := fun n hn =>
    Number.Parts.toNumber_ofInteger (Number.isTooLong_of_lt hn)
  unfold ofWindow?
  rw [Text.cutAt?_append hminus]
  simp only [hparts, hnumber start hstart, hnumber stop hstop]
  rfl

namespace Line

variable {c : Condition} {cs : List Char}

theorem shorthand?_eq (h : c.Line cs) : c.shorthand? = some cs := by
  cases h <;> rfl

theorem ofText_eq (h : c.Line cs) : ofText cs = .ok (some c) := by
  cases h with
  | flagIs hkey value =>
    rw [List.append_assoc, hkey.ofText_flag (endsLine_truthWord value), truthOfText_truthWord]
  | @resourceIs key hkey relation n hn =>
    rw [List.append_assoc, List.append_assoc, hkey.ofText_resource (Relation.ofSign?_sign relation)
      (.ofInt n) (Number.head?_ofInt_ne_equals n), Number.strip_ofInt, Number.ofNotation?_ofInt hn]
    rfl
  | @variableIs key text hkey likeness hlikeness htext =>
    have hequals : likeness.sign = "=" → text.toList.head? ≠ some '=' := by
      cases likeness <;> exact fun hsign => absurd hsign (by decide)
    rw [List.append_assoc, List.append_assoc, hkey.ofText_variable
      (Likeness.ofSign?_sign likeness) hlikeness htext hequals, String.ofList_toList]
  | @during start stop hstart hstop =>
    have hline : EndsLine (Numeral.digits stop) := EndsLine.ofInt stop
    rw [List.append_assoc, ofText_append opens_window, hline.stripEnd_cons, ofShorthand?_window,
      ofWindow?_digits hstart hstop]
    rfl

theorem short (h : c.Line cs) : c.toDatum.hasTooLong = false := by
  cases h with
  | flagIs hkey value => rfl
  | resourceIs hkey relation hn =>
    simp [toDatum, Datum.hasTooLong, Datum.memberTooLong, Number.isTooLong_of_lt hn]
  | variableIs hkey hlikeness htext => rfl
  | @during start stop hstart hstop =>
    have hstart' : (Number.int start).isTooLong = false := Number.isTooLong_of_lt hstart
    have hstop' : (Number.int stop).isTooLong = false := Number.isTooLong_of_lt hstop
    simp [toDatum, Datum.hasTooLong, Datum.memberTooLong, hstart', hstop']

theorem agrees (h : c.Line cs) : c.agrees c = true := by
  have hint : ∀ n, (Number.int n).agrees (.int n) = true := fun n => Number.agrees_self nofun
  cases h with
  | flagIs hkey value => simp [Condition.agrees]
  | resourceIs hkey relation hn => simp [Condition.agrees, hint]
  | variableIs hkey hlikeness htext => simp [Condition.agrees, Scalar.agrees]
  | during hstart hstop => simp [Condition.agrees, hint]

theorem renderChars_eq (h : c.Line cs) : c.renderChars = .ok cs :=
  renderChars_of_shorthand h.short h.shorthand?_eq h.ofText_eq h.agrees

end Line

end Condition

/-! ## Effects -/

namespace Effect

/-- The line of an effect. -/
inductive Line : Effect → List Char → Prop where
  | setFlag {key : String} (hkey : PlainKey key) (value : Bool) :
    Line (.setFlag key value) ("setFlag:".toList ++ key.toList ++ '=' :: Condition.truthWord value)
  | addResource {key : String} (hkey : PlainKey key) {n : Int}
      (hn : n.natAbs < 10 ^ Numeral.maxDigits) :
    Line (.addResource key (.int n)) ("addResource:".toList ++ key.toList ++ '=' :: Numeral.ofInt n)
  | setVariable {key text : String} (hkey : PlainKey key) (htext : EndsLine text.toList) :
    Line (.setVariable key (.text text)) ("setVariable:".toList ++ key.toList ++ '=' :: text.toList)
  | goto {target : String} (hne : target ≠ "") (hsingle : '\n' ∉ target.toList)
      (hstrip : strip target.toList = target.toList) :
    Line (.goto target) ("goto:".toList ++ target.toList)
  | provided {condition : Condition} {member : Effect} {text line : List Char}
      (hcondition : condition.Line text) (hquestion : '?' ∉ text) (hmember : Line member line) :
    Line (.provided condition member) ("conditionalEffect:".toList ++ text ++ '?' :: line)
  | oneOf {members : List (Effect × List Char)} (hne : members ≠ [])
      (hmembers : ∀ m ∈ members, Line m.1 m.2) (hbar : ∀ m ∈ members, '|' ∉ m.2) :
    Line (.oneOf (members.map Prod.fst))
      ("randomEffect:".toList ++ joinWith ['|'] (members.map Prod.snd))

/-- An effect that is written as a text and read from it. -/
structure Kept (e : Effect) (cs : List Char) : Prop where
  read : ofText cs = .ok (some e)
  agrees : e.agrees e = true
  written : e.renderChars = .ok cs

theorem Spells.kept {e : Effect} {cs : List Char} (h : e.Spells cs)
    (hshort : e.toDatum.hasTooLong = false) (hread : ofText cs = .ok (some e))
    (hagrees : e.agrees e = true) : Kept e cs :=
  ⟨hread, hagrees, h.renderChars_eq_ok hshort hread hagrees⟩

theorem ofText_stripEnd (cs : List Char) : ofText (stripEnd cs) = ofText cs := by
  rw [← ofText_strip (stripEnd cs), Text.strip_stripEnd, ofText_strip]

theorem ofText_goto {target : String} (hne : target ≠ "") (hsingle : '\n' ∉ target.toList)
    (hstrip : strip target.toList = target.toList) :
    ofText ("goto:".toList ++ target.toList) = .ok (some (.goto target)) := by
  have hline : EndsLine target.toList :=
    .of_strip (fun hnil => hne (String.toList_eq_nil_iff.1 hnil)) hsingle hstrip
  rw [ofText_append_of_simple opens_goto rfl, hline.trimmed, ofShorthand?_goto, ofGoto?]
  simp only [hstrip, List.isEmpty_eq_false_iff.2 hline.nonempty, hline.isLine, Bool.not_true,
    Bool.or_self, Bool.false_eq_true, ↓reduceIte, String.ofList_toList]
  rfl

/-- A condition without a question mark and a member are read from their texts. -/
theorem ofText_provided {condition : Condition} {member : Effect} {text line : List Char}
    (hcondition : Condition.ofText text = .ok (some condition)) (hquestion : '?' ∉ text)
    (hmember : ofText line = .ok (some member)) :
    ofText ("conditionalEffect:".toList ++ (text ++ '?' :: line)) =
      .ok (some (.provided condition member)) := by
  have hstrip : strip ("conditionalEffect:".toList ++ (text ++ '?' :: line)) =
      "conditionalEffect:".toList ++ (text ++ '?' :: stripEnd line) := by
    rw [opens_conditional.strip_append, Text.stripEnd_append_cons (by decide)]
  have hform : Form.ofText (strip ("conditionalEffect:".toList ++ (text ++ '?' :: line))) =
      .conditional (text ++ '?' :: stripEnd line) := by
    rw [hstrip]
    rfl
  exact ofText_of_conditional hform (Text.cutAt?_append hquestion _) hcondition
    ((ofText_stripEnd line).trans hmember)

/-- Members without bars are read from their texts. -/
theorem ofText_oneOf {members : List (Effect × List Char)} (hne : members ≠ [])
    (hbar : ∀ m ∈ members, '|' ∉ m.2) (hread : ∀ m ∈ members, ofText m.2 = .ok (some m.1)) :
    ofText ("randomEffect:".toList ++ joinWith ['|'] (members.map Prod.snd)) =
      .ok (some (.oneOf (members.map Prod.fst))) := by
  have hparts : ∀ m ∈ members, parts '|' m.2 = [strip m.2] := fun m hm => by
    rw [Text.parts_of_not_mem (hbar m hm), if_neg (ofText_eq_ok_iff.1 (hread m hm)).1]
  have hjoined : parts '|' (stripEnd (joinWith ['|'] (members.map Prod.snd))) =
      members.map fun m => strip m.2 := by
    rw [Text.parts_stripEnd (by decide), Text.parts_joinWith, List.flatMap_map,
      List.flatMap_congr hparts]
    exact List.map_eq_flatMap.symm
  have hmembers : (members.map fun m => strip m.2).mapM ofStripped =
      .ok (members.map Prod.fst) := by
    rw [mapM_eq_ok_iff, List.forall₂_map_left_iff, List.forall₂_map_right_iff, List.forall₂_same]
    exact fun m hm => ofText_eq_ok (hread m hm)
  have hnotempty : (members.map Prod.fst).isEmpty = false := by simpa using hne
  have hform : Form.ofText ("randomEffect:".toList ++
      stripEnd (joinWith ['|'] (members.map Prod.snd))) =
        .random (stripEnd (joinWith ['|'] (members.map Prod.snd))) := rfl
  rw [ofText_append opens_random, ofStripped_random hform, hjoined, hmembers, ok_bind]
  simp only [hnotempty, Bool.false_eq_true, ↓reduceIte]
  rfl

/-- An effect is written as its line and read from it, by induction on the line. -/
theorem Line.kept {e : Effect} {cs : List Char} (h : e.Line cs) : Kept e cs := by
  induction h with
  | setFlag hkey value =>
    refine (Spells.simple rfl).kept rfl ?_ (by simp [agrees])
    rw [List.append_assoc, hkey.ofText_setFlag (Condition.endsLine_truthWord value),
      Condition.truthOfText_truthWord]
  | @addResource key hkey n hn =>
    have hlong := Number.isTooLong_of_lt hn
    have hself : (Number.int n).agrees (.int n) = true := Number.agrees_self nofun
    refine (Spells.simple rfl).kept ?_ ?_ (by simp [agrees, hself])
    · simp [toDatum, Datum.hasTooLong, Datum.memberTooLong, hlong]
    · rw [List.append_assoc, hkey.ofText_addResource (.ofInt n), Number.ofNotation?_ofInt hn]
      rfl
  | setVariable hkey htext =>
    refine (Spells.simple rfl).kept rfl ?_ (by simp [agrees, Scalar.agrees])
    rw [List.append_assoc, hkey.ofText_setVariable htext, String.ofList_toList]
  | goto hne hsingle hstrip =>
    exact (Spells.simple rfl).kept rfl (ofText_goto hne hsingle hstrip) (by simp [agrees])
  | provided hcondition hquestion _ ih =>
    refine (Spells.conditional hcondition.renderChars_eq ih.written).kept ?_ ?_ ?_
    · exact short_provided_iff.2 ⟨hcondition.short, short_of_renderChars ih.written⟩
    · rw [List.append_assoc]
      exact ofText_provided hcondition.ofText_eq hquestion ih.read
    · simp [agrees, hcondition.agrees, ih.agrees]
  | @oneOf members hne _ hbar ih =>
    have hwritten : List.Forall₂ (fun e t => e.renderChars = .ok t) (members.map Prod.fst)
        (members.map Prod.snd) := by
      rw [List.forall₂_map_left_iff, List.forall₂_map_right_iff, List.forall₂_same]
      exact fun m hm => (ih m hm).written
    have hself : List.Forall₂ (fun e f => e.agrees f = true) (members.map Prod.fst)
        (members.map Prod.fst) := by
      rw [List.forall₂_map_left_iff, List.forall₂_map_right_iff, List.forall₂_same]
      exact fun m hm => (ih m hm).agrees
    have hshort : ∀ e ∈ members.map Prod.fst, e.toDatum.hasTooLong = false :=
      List.forall_mem_map.2 fun m hm => short_of_renderChars (ih m hm).written
    exact (Spells.random (by simpa using hne) (renderEach_eq_ok_iff.2 hwritten)).kept
      (short_oneOf_iff.2 hshort) (ofText_oneOf hne hbar fun m hm => (ih m hm).read)
      (agreesEach_iff.2 hself)

end Effect

/-- Conditions and effects that have a line are written as the line and read from it. -/
theorem one_line_reads_back :
    (∀ {c : Condition} {line : List Char}, c.Line line → c.render = .ok (String.ofList line) ∧
      Condition.ofTextOrObject (.text (String.ofList line)) = .ok (some c)) ∧
    (∀ {e : Effect} {line : List Char}, e.Line line → e.render = .ok (String.ofList line) ∧
      Effect.ofTextOrObject (.text (String.ofList line)) = .ok (some e)) := by
  constructor
  · intro c line h
    refine ⟨map_eq_ok_iff.2 ⟨line, h.renderChars_eq, rfl⟩, ?_⟩
    rw [Condition.ofTextOrObject, String.toList_ofList, h.ofText_eq]
  · intro e line h
    refine ⟨map_eq_ok_iff.2 ⟨line, h.kept.written, rfl⟩, ?_⟩
    rw [Effect.ofTextOrObject, String.toList_ofList, h.kept.read]

/-- A toll at a gate: who has no equals sign in the name pays, and others may go to the gate.  The key
has an operator in its text, and the target a question mark. -/
def toll : Effect :=
  .oneOf [.provided (.variableIs "who contains" .lacking (.text "=")) (.addResource "gold" (.int (-3))),
    .goto "gate?"]

/-- The line of the toll. -/
def tollLine : String :=
  "randomEffect:conditionalEffect:variable:who contains!contains=?addResource:gold=-3|goto:gate?"

theorem one_line_reads_back_toll :
    toll.Line tollLine.toList ∧ toll.render = .ok tollLine ∧
    Effect.ofTextOrObject (.text tollLine) = .ok (some toll) ∧
    (Condition.during (.int 7) (.int 9)).Line "timeWindow:7-9".toList ∧
    (Condition.during (.int 7) (.int 9)).render = .ok "timeWindow:7-9" ∧
    Condition.ofTextOrObject (.text "timeWindow:7-9") = .ok (some (.during (.int 7) (.int 9))) := by
  have hsmall : ∀ {n : Nat}, n < 10 → n < 10 ^ Numeral.maxDigits := fun h =>
    Nat.lt_of_lt_of_le h (Nat.le_self_pow (by decide) 10)
  have hwho : (Condition.variableIs "who contains" .lacking (.text "=")).Line
      "variable:who contains!contains=".toList :=
    .variableIs (by decide) (by decide) ⟨by decide, by decide, by decide⟩
  have hpays : (Effect.addResource "gold" (.int (-3))).Line "addResource:gold=-3".toList := by
    have hthree : Numeral.ofInt (-3) = "-3".toList :=
      congrArg ('-' :: ·) (Numeral.digits_of_lt (by decide))
    have hline := @Effect.Line.addResource "gold" (by decide) (-3) (hsmall (by decide))
    rwa [hthree] at hline
  have hgate : (Effect.goto "gate?").Line "goto:gate?".toList :=
    .goto (by decide) (by decide) (by decide)
  have htoll : toll.Line tollLine.toList := by
    have hline := @Effect.Line.oneOf [(_, _), (_, "goto:gate?".toList)] (List.cons_ne_nil _ _)
      (List.forall_mem_cons.2 ⟨.provided hwho (by decide) hpays, List.forall_mem_singleton.2 hgate⟩)
      (by decide)
    simpa [toll, tollLine, joinWith] using hline
  have hwindow : (Condition.during (.int 7) (.int 9)).Line "timeWindow:7-9".toList := by
    have hline := Condition.Line.during (hsmall (show 7 < 10 by decide))
      (hsmall (show 9 < 10 by decide))
    rw [Numeral.digits_of_lt (by decide), Numeral.digits_of_lt (by decide)] at hline
    exact hline
  have htollKept := one_line_reads_back.2 htoll
  have hwindowKept := one_line_reads_back.1 hwindow
  rw [String.ofList_toList] at htollKept hwindowKept
  exact ⟨htoll, htollKept.1, htollKept.2, hwindow, hwindowKept.1, hwindowKept.2⟩

/-- A test of a resource against an integer of more digits than are written. -/
def longAmount : Condition :=
  .resourceIs "k" .atLeast (.int (10 ^ Numeral.maxDigits))

/-- With too many digits there is no line: neither is the test written, nor would its shorthand be
read. -/
theorem long_amount_not_rendered : PlainKey "k" ∧ longAmount.render = .error .tooLong ∧
    ∃ count, Condition.ofText
        ("resource:".toList ++ ("k".toList ++ (">=".toList ++
          Numeral.ofInt (10 ^ Numeral.maxDigits)))) =
      .error (.tooManyDigits count) := by
  have hkey : PlainKey "k" := by decide
  have hlong := Number.isTooLong_ten_pow (Nat.le_refl Numeral.maxDigits)
  unfold longAmount
  generalize (10 : Int) ^ Numeral.maxDigits = n at hlong ⊢
  refine ⟨hkey, ?_, (Numeral.digits n.natAbs).length, ?_⟩
  · have hdatum :
        (Condition.toDatum (.resourceIs "k" .atLeast (.int n))).hasTooLong = true := by
      simp [Condition.toDatum, Datum.hasTooLong, Datum.memberTooLong, hlong]
    unfold Condition.render Condition.renderChars
    simp only
    rw [Datum.literal_of_tooLong hdatum]
    rfl
  · have hsign : Relation.ofSign? ">=" = some .atLeast := by decide
    rw [hkey.ofText_resource hsign (.ofInt n) (Number.head?_ofInt_ne_equals n), Number.strip_ofInt,
      Number.ofNotation?_of_isTooLong hlong]
    rfl

end Gamebook
