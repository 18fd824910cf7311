import Gamebook.Condition.Holds
import Gamebook.Proofs.Fallible
import Gamebook.Proofs.NumericText
import Gamebook.Proofs.Writable

/-!
# Evaluating conditions

To evaluate a condition the texts of variables are written, so evaluation gives whether the condition
holds, or fails for a number that is too long to be written (`Condition.gives_evaluate`).

Variables are compared by text, numbers among them.  The comparison is faithful to numbers all the same:
an integer or a finite floating point number is like another one if and only if both have the same value
(`Condition.number_variables_compare_by_value`).  Only numbers that are too long are not compared, not
even with themselves (`Condition.long_number_not_compared`).
-/

namespace Gamebook

namespace Datum

variable {d : Datum}

theorem writeCompared_of_short (h : d.hasTooLong = false) : d.writeCompared = .ok d.comparedText := by
  unfold writeCompared
  rw [h]
  rfl

theorem writeCompared_of_tooLong (h : d.hasTooLong = true) : d.writeCompared = .error .tooLong :=
  if_pos h

theorem gives_writeCompared (d : Datum) :
    Gives d.writeCompared (· = d.comparedText) fun e => e = .tooLong ∧ d.hasTooLong = true := by
  cases h : d.hasTooLong with
  | false =>
    rw [writeCompared_of_short h]
    exact rfl
  | true =>
    rw [writeCompared_of_tooLong h]
    exact ⟨rfl, rfl⟩

end Datum

namespace Condition

/-! ## Evaluation and truth -/

/-- A number that is too long to be written stands in a variable or in one of the scalars. -/
def SomeTooLong (s : State) (values : List Scalar) : Prop :=
  (∃ key d, s.vars.get? key = some d ∧ d.hasTooLong = true) ∨
    ∃ x ∈ values, x.toDatum.hasTooLong = true

theorem SomeTooLong.mono {s : State} {values values' : List Scalar} (h : SomeTooLong s values)
    (hsub : values ⊆ values') : SomeTooLong s values' :=
  h.imp_right fun ⟨x, hx, hlong⟩ => ⟨x, hsub hx, hlong⟩

/-- What evaluation gives is right, and it fails only for a number that is too long. -/
def EvaluatesTo (s : State) (values : List Scalar) (x : Except RangeError Bool) (b : Bool) : Prop :=
  Gives x (· = b) fun e => e = .tooLong ∧ SomeTooLong s values

theorem EvaluatesTo.mono {s : State} {values values' : List Scalar} {x : Except RangeError Bool}
    {b : Bool} (h : EvaluatesTo s values x b) (hsub : values ⊆ values') : EvaluatesTo s values' x b :=
  Gives.mono h (fun _ => id) fun _ he => ⟨he.1, he.2.mono hsub⟩

theorem gives_writeVariable (s : State) (key : String) (values : List Scalar) :
    Gives (writeVariable s key) (· = s.variableText key)
      fun e => e = .tooLong ∧ SomeTooLong s values := by
  unfold writeVariable State.variableText
  cases hvar : s.vars.get? key with
  | none => exact rfl
  | some d =>
    exact d.gives_writeCompared.mono (fun _ => id) fun e he => ⟨he.1, .inl ⟨key, d, hvar, he.2⟩⟩

theorem evaluatesTo_testVariable (s : State) (key : String) (likeness : Likeness) (value : Scalar) :
    EvaluatesTo s [value] (testVariable s key value.toDatum likeness.holds)
      (variableHolds s key likeness value.toDatum) := by
  have hvalue : Gives value.toDatum.writeCompared (· = value.toDatum.comparedText)
      fun e => e = .tooLong ∧ SomeTooLong s [value] :=
    value.toDatum.gives_writeCompared.mono (fun _ => id) fun e he =>
      ⟨he.1, .inr ⟨value, List.mem_singleton_self value, he.2⟩⟩
  -- both texts are written before they are compared
  refine (gives_writeVariable s key [value]).bind ?_
  rintro actual rfl
  refine hvalue.bind ?_
  rintro expected rfl
  exact rfl

mutual

/-- Evaluating a condition gives whether it holds, or fails for a number that is too long. -/
theorem gives_evaluate (s : State) : (c : Condition) →
    EvaluatesTo s c.values (c.evaluate s) (c.holds s)
  | .flagIs .. | .resourceIs .. | .during .. | .verbatim _ => rfl
  | .variableIs key likeness value => evaluatesTo_testVariable s key likeness value
  | .allOf members => gives_evaluateAll s members
  | .anyOf members => gives_evaluateAny s members
  | .negation member => by
    refine (gives_evaluate s member).map ?_
    rintro _ rfl
    rfl

theorem gives_evaluateAll (s : State) : (cs : List Condition) →
    EvaluatesTo s (valuesOfAll cs) (evaluateAll s cs) (allHold s cs)
  | [] => rfl
  | c :: cs => by
    refine ((gives_evaluate s c).mono (List.subset_append_left _ _)).bind ?_
    rintro _ rfl
    rw [allHold]
    cases c.holds s with
    | true => exact (gives_evaluateAll s cs).mono (List.subset_append_right _ _)
    | false => exact rfl

theorem gives_evaluateAny (s : State) : (cs : List Condition) →
    EvaluatesTo s (valuesOfAll cs) (evaluateAny s cs) (anyHolds s cs)
  | [] => rfl
  | c :: cs => by
    refine ((gives_evaluate s c).mono (List.subset_append_left _ _)).bind ?_
    rintro _ rfl
    rw [anyHolds]
    cases c.holds s with
    | true => exact rfl
    | false => exact (gives_evaluateAny s cs).mono (List.subset_append_right _ _)

end

/-! ## Numbers as variables -/

variable {s : State} {key : String} {d value : Datum}

theorem testVariable_of_short (hvar : s.vars.get? key = some d) (hd : d.hasTooLong = false)
    (hvalue : value.hasTooLong = false) (test : List Char → List Char → Bool) :
    testVariable s key value test = .ok (test d.comparedText value.comparedText) := by
  unfold testVariable writeVariable
  rw [hvar]
  simp only [Datum.writeCompared_of_short hd, Datum.writeCompared_of_short hvalue, ok_bind, pure_eq_ok]

theorem testVariable_of_tooLong (hvar : s.vars.get? key = some d)
    (hlong : d.hasTooLong = true ∨ value.hasTooLong = true) (test : List Char → List Char → Bool) :
    testVariable s key value test = .error .tooLong := by
  unfold testVariable writeVariable
  rw [hvar]
  cases hd : d.hasTooLong with
  | true =>
    simp only [Datum.writeCompared_of_tooLong hd]
    rfl
  | false =>
    have hvalue := hlong.resolve_left (by simp [hd])
    simp only [Datum.writeCompared_of_short hd, Datum.writeCompared_of_tooLong hvalue, ok_bind]
    rfl

/-- In the state a variable is compared with a number, by either sign of equality and by the sign of
inequality, as the value of the one is compared with that of the other. -/
structure ComparesByValue (s : State) (key : String) (a b : Number) : Prop where
  double : testVariableBySign s key "==" (.number b) = .ok (decide (a.value = b.value))
  single : testVariableBySign s key "=" (.number b) = .ok (decide (a.value = b.value))
  unequal : testVariableBySign s key "!=" (.number b) = .ok (decide (a.value ≠ b.value))
  evaluate_equal :
    evaluate s (.variableIs key .equal (.number b)) = .ok (decide (a.value = b.value))
  evaluate_unequal :
    evaluate s (.variableIs key .unequal (.number b)) = .ok (decide (a.value ≠ b.value))

/-- In the state a variable is not compared with a number at all. -/
structure NotCompared (s : State) (key : String) (b : Number) : Prop where
  test : ∀ sign, testVariableBySign s key sign (.number b) = .error .tooLong
  evaluate : ∀ likeness, evaluate s (.variableIs key likeness (.number b)) = .error .tooLong

variable {a b : Number}

theorem equal_holds_plainText (ha : a.Proper) (hb : b.Proper) (halong : a.isTooLong = false)
    (hblong : b.isTooLong = false) :
    Likeness.equal.holds a.plainText b.plainText = decide (a.value = b.value) := by
  rw [← decide_eq_decide.2 (Number.plainText_eq_iff ha hb halong hblong)]
  exact Bool.beq_eq_decide_eq _ _

theorem unequal_holds (actual expected : List Char) :
    Likeness.unequal.holds actual expected = !Likeness.equal.holds actual expected := rfl

theorem comparesByValue (hvar : s.vars.get? key = some (.number a)) (ha : a.Proper) (hb : b.Proper)
    (halong : a.isTooLong = false) (hblong : b.isTooLong = false) : ComparesByValue s key a b := by
  have htest : ∀ test, testVariable s key (.number b) test = .ok (test a.plainText b.plainText) :=
    testVariable_of_short hvar halong hblong
  have hequal := equal_holds_plainText ha hb halong hblong
  have hunequal : Likeness.unequal.holds a.plainText b.plainText = decide (a.value ≠ b.value) := by
    rw [unequal_holds, hequal, decide_not]
  exact {
    double := (htest _).trans (congrArg Except.ok hequal)
    single := (htest _).trans (congrArg Except.ok hequal)
    unequal := (htest _).trans (congrArg Except.ok hunequal)
    evaluate_equal := (htest _).trans (congrArg Except.ok hequal)
    evaluate_unequal := (htest _).trans (congrArg Except.ok hunequal) }

theorem notCompared (hvar : s.vars.get? key = some (.number a))
    (hlong : a.isTooLong = true ∨ b.isTooLong = true) : NotCompared s key b := by
  have htest : ∀ test, testVariable s key (.number b) test = .error .tooLong :=
    testVariable_of_tooLong hvar hlong
  exact ⟨fun sign => htest _, fun likeness => htest _⟩

/-- The state in which one variable is a number. -/
def holding (key : String) (a : Number) : State :=
  { vars := Table.empty.put key (.number a) }

theorem vars_holding (key : String) (a : Number) :
    (holding key a).vars.get? key = some (.number a) := by
  unfold holding
  simp

/-- A number that variables are compared with. -/
def Comparable : Type :=
  { n : Number // n.Proper ∧ n.isTooLong = false }

/-- A variable that is the one number equals the other one, whatever else is in the state. -/
def Alike (a b : Comparable) : Prop :=
  ∀ s key, s.vars.get? key = some (.number a.1) →
    evaluate s (.variableIs key .equal (.number b.1)) = .ok true

theorem alike_iff (a b : Comparable) : Alike a b ↔ a.1.value = b.1.value := by
  have compares : ∀ s key, s.vars.get? key = some (.number a.1) → ComparesByValue s key a.1 b.1 :=
    fun s key hvar => comparesByValue hvar a.2.1 b.2.1 a.2.2 b.2.2
  constructor
  · intro h
    have htrue := h _ "" (vars_holding "" a.1)
    rw [(compares _ "" (vars_holding "" a.1)).evaluate_equal] at htrue
    exact of_decide_eq_true (Except.ok.inj htrue)
  · intro h s key hvar
    rw [(compares s key hvar).evaluate_equal, decide_eq_true h]

/-- A variable that is an integer of any size or a finite floating point number is compared with such a
number by value, although it is compared by text, and the comparison is an equivalence.  If one of the
two is too long to be written, they are not compared. -/
theorem number_variables_compare_by_value :
    (∀ s key a b, s.vars.get? key = some (.number a) → a.Proper → b.Proper →
      (a.isTooLong = false → b.isTooLong = false → ComparesByValue s key a b) ∧
      (a.isTooLong = true ∨ b.isTooLong = true → NotCompared s key b)) ∧
    Equivalence Alike := by
  constructor
  · intro s key a b hvar ha hb
    exact ⟨comparesByValue hvar ha hb, notCompared hvar⟩
  · have hvalue : Alike = fun a b => a.1.value = b.1.value := by
      funext a b
      exact propext (alike_iff a b)
    rw [hvalue]
    exact ⟨fun _ => rfl, fun h => h.symm, fun h h' => h.trans h'⟩

/-- An integer and a floating point number of one value are equal as variables, though the texts that
tell the kinds apart are `10000000000000000000000` and `1e+22`; so are the two zeros. -/
theorem number_variables_compare_by_value_kinds :
    testVariableBySign (holding "stars" (.float (.ofDecimal false 1 22))) "stars" "=="
      (.number (.int (10 ^ 22))) = .ok true ∧
    testVariableBySign (holding "stars" (.float (.ofDecimal false 1 22))) "stars" "!="
      (.number (.int (10 ^ 22 + 1))) = .ok true ∧
    testVariableBySign (holding "debt" (.int 0)) "debt" "="
      (.number (.float (.finite true 0 Binary64.representable_zero))) = .ok true := by
  have hstars : (Number.float (.ofDecimal false 1 22)).Proper :=
    Number.proper_float (by decide +kernel)
  have hzero : (Number.float (.finite true 0 Binary64.representable_zero)).Proper :=
    Number.proper_float rfl
  have hint := Number.proper_int
  have compares := number_variables_compare_by_value.1
  refine ⟨?_, ?_, ?_⟩
  · rw [((compares _ _ _ _ (vars_holding _ _) hstars (hint (10 ^ 22))).1 rfl
      (by decide +kernel)).double, ← Number.eq_eq_decide_value hstars (hint _)]
    decide +kernel
  · rw [((compares _ _ _ _ (vars_holding _ _) hstars (hint (10 ^ 22 + 1))).1 rfl
      (by decide +kernel)).unequal, decide_not, ← Number.eq_eq_decide_value hstars (hint _)]
    decide +kernel
  · rw [((compares _ _ _ _ (vars_holding _ _) (hint 0) hzero).1 (by decide +kernel) rfl).single,
      ← Number.eq_eq_decide_value (hint _) hzero]
    decide +kernel

/-- A number with too many digits is not compared, not even with itself. -/
theorem long_number_not_compared :
    (Number.int (10 ^ Numeral.maxDigits)).Proper ∧
    (holding "k" (.int (10 ^ Numeral.maxDigits))).vars.get? "k" =
      some (.number (.int (10 ^ Numeral.maxDigits))) ∧
    testVariableBySign (holding "k" (.int (10 ^ Numeral.maxDigits))) "k" "=="
      (.number (.int (10 ^ Numeral.maxDigits))) = .error .tooLong := by
  have hlong := Number.isTooLong_ten_pow (Nat.le_refl Numeral.maxDigits)
  generalize (10 : Int) ^ Numeral.maxDigits = n at hlong ⊢
  have hvar := vars_holding "k" (.int n)
  exact ⟨Number.proper_int n, hvar, (notCompared hvar (.inl hlong)).test "=="⟩

end Condition

end Gamebook
