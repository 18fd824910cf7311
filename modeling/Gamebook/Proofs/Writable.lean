import Gamebook.Proofs.Encoding
import Gamebook.Proofs.InRange
import Gamebook.Proofs.Written

/-!
# Data that documents can hold

The numbers and the scalars in a condition or an effect decide whether its datum is read back as it is
(`Condition.readsBack_toDatum`, `Effect.readsBack_toDatum`): the numbers with which resources and the
clock are compared or changed must be in range, and other scalars must have a notation
(`Scalar.Writable`).  The same makes conditions and effects agree with themselves.
-/

namespace Gamebook

/-! ## Scalars -/

theorem Number.asWritten_of_place? {n : Number} (h : n.place? ≠ none) : n.asWritten = n := by
  unfold asWritten
  split
  · exact absurd rfl h
  · rfl

/-- A scalar that documents can hold: a number is not undefined and not too long. -/
def Scalar.Writable : Scalar → Prop
  | .number n => n.isTooLong = false ∧ n.place? ≠ none
  | _ => True

theorem Scalar.readsBack_toDatum {x : Scalar} (h : x.Writable) : x.toDatum.ReadsBack := by
  cases x with
  | text s => exact .text s
  | truth b => exact .truth b
  | number n => exact .number h.1 (Number.asWritten_of_place? h.2)

theorem Scalar.agrees_self {x : Scalar} (h : x.Writable) : x.agrees x = true := by
  cases x with
  | text s => exact beq_self_eq_true s
  | truth b => exact beq_self_eq_true b
  | number n => exact Number.agrees_self h.2

theorem Number.readsBack {n : Number} (h : n.isFinite = .ok true) :
    (Datum.number n).ReadsBack :=
  .number (isTooLong_of_isFinite h) (asWritten_of_place? (place?_ne_none_of_isFinite h))

/-! ## Conditions -/

namespace Condition

mutual

/-- The numbers with which resources and the clock are compared, at any depth. -/
def numbers : Condition → List Number
  | .resourceIs _ _ value => [value]
  | .during start stop => [start, stop]
  | .allOf members => numbersOfAll members
  | .anyOf members => numbersOfAll members
  | .negation member => numbers member
  | _ => []

/-- The numbers of several conditions. -/
def numbersOfAll : List Condition → List Number
  | [] => []
  | c :: cs => numbers c ++ numbersOfAll cs

end

mutual

/-- The scalars with which variables are compared, at any depth. -/
def values : Condition → List Scalar
  | .variableIs _ _ value => [value]
  | .allOf members => valuesOfAll members
  | .anyOf members => valuesOfAll members
  | .negation member => values member
  | _ => []

/-- The scalars of several conditions. -/
def valuesOfAll : List Condition → List Scalar
  | [] => []
  | c :: cs => values c ++ valuesOfAll cs

end

theorem mem_numbersOfAll {n : Number} {cs : List Condition} :
    n ∈ numbersOfAll cs ↔ ∃ c ∈ cs, n ∈ c.numbers := by
  induction cs with
  | nil => simp [numbersOfAll]
  | cons c cs ih => simp [numbersOfAll, ih]

theorem mem_valuesOfAll {x : Scalar} {cs : List Condition} :
    x ∈ valuesOfAll cs ↔ ∃ c ∈ cs, x ∈ c.values := by
  induction cs with
  | nil => simp [valuesOfAll]
  | cons c cs ih => simp [valuesOfAll, ih]

theorem readsBack_toData {cs : List Condition} (h : ∀ c ∈ cs, c.toDatum.ReadsBack) :
    ∀ d ∈ toData cs, d.ReadsBack := by
  induction cs with
  | nil => exact List.forall_mem_nil _
  | cons c cs ih =>
    rw [toData]
    exact List.forall_mem_cons.2
      ⟨h c List.mem_cons_self, ih fun c hc => h c (List.mem_cons_of_mem _ hc)⟩

/-- The datum of a condition is read back as it is. -/
theorem readsBack_toDatum {c : Condition} (h : c.WellFormed) (hvalues : ∀ x ∈ c.values, x.Writable) :
    c.toDatum.ReadsBack := by
  induction h with
  | flagIs hkey =>
    refine .object (by simp) ?_
    simp only [List.forall_mem_cons]
    exact ⟨.text _, .text _, .truth _, List.forall_mem_nil _⟩
  | resourceIs hkey hvalue =>
    refine .object (by simp) ?_
    simp only [List.forall_mem_cons]
    exact ⟨.text _, .text _, .text _, Number.readsBack hvalue, List.forall_mem_nil _⟩
  | variableIs hkey =>
    refine .object (by simp) ?_
    simp only [List.forall_mem_cons]
    have hvalue := Scalar.readsBack_toDatum (hvalues _ List.mem_cons_self)
    exact ⟨.text _, .text _, .text _, hvalue, List.forall_mem_nil _⟩
  | during hstart hstop =>
    refine .object (by simp) ?_
    simp only [List.forall_mem_cons]
    exact ⟨.text _, Number.readsBack hstart, Number.readsBack hstop, List.forall_mem_nil _⟩
  | allOf h ih =>
    refine .object (by simp) ?_
    simp only [List.forall_mem_cons]
    have hmembers := readsBack_toData fun c hc =>
      ih c hc fun x hx => hvalues x (mem_valuesOfAll.2 ⟨c, hc, hx⟩)
    exact ⟨.text _, .list hmembers, List.forall_mem_nil _⟩
  | anyOf h ih =>
    refine .object (by simp) ?_
    simp only [List.forall_mem_cons]
    have hmembers := readsBack_toData fun c hc =>
      ih c hc fun x hx => hvalues x (mem_valuesOfAll.2 ⟨c, hc, hx⟩)
    exact ⟨.text _, .list hmembers, List.forall_mem_nil _⟩
  | negation h ih =>
    refine .object (by simp) ?_
    simp only [List.forall_mem_cons]
    exact ⟨.text _, ih hvalues, List.forall_mem_nil _⟩
  | verbatim => exact .text _

theorem agreesEach_self {cs : List Condition} (h : ∀ c ∈ cs, c.agrees c = true) :
    agreesEach cs cs = true := by
  induction cs with
  | nil => rfl
  | cons c cs ih =>
    rw [agreesEach, h c List.mem_cons_self, ih fun c hc => h c (List.mem_cons_of_mem _ hc)]
    rfl

theorem agrees_self {c : Condition} (h : c.WellFormed) (hvalues : ∀ x ∈ c.values, x.Writable) :
    c.agrees c = true := by
  induction h with
  | flagIs hkey => simp [agrees]
  | resourceIs hkey hvalue =>
    simp [agrees, Number.agrees_self (Number.place?_ne_none_of_isFinite hvalue)]
  | variableIs hkey => simp [agrees, Scalar.agrees_self (hvalues _ List.mem_cons_self)]
  | during hstart hstop =>
    simp [agrees, Number.agrees_self (Number.place?_ne_none_of_isFinite hstart),
      Number.agrees_self (Number.place?_ne_none_of_isFinite hstop)]
  | allOf h ih =>
    exact agreesEach_self fun c hc =>
      ih c hc fun x hx => hvalues x (mem_valuesOfAll.2 ⟨c, hc, hx⟩)
  | anyOf h ih =>
    exact agreesEach_self fun c hc =>
      ih c hc fun x hx => hvalues x (mem_valuesOfAll.2 ⟨c, hc, hx⟩)
  | negation h ih => exact ih hvalues
  | verbatim => simp [agrees]

end Condition

/-! ## Effects -/

namespace Effect

mutual

/-- The numbers with which an effect calculates or its conditions compare, at any depth. -/
def numbers : Effect → List Number
  | .addResource _ delta => [delta]
  | .multiplyResource _ factor => [factor]
  | .setResource _ value => [value]
  | .oneOf members => numbersOfAll members
  | .provided condition member => condition.numbers ++ numbers member
  | _ => []

/-- The numbers of several effects. -/
def numbersOfAll : List Effect → List Number
  | [] => []
  | e :: es => numbers e ++ numbersOfAll es

end

mutual

/-- The scalars that variables are given or compared with, at any depth. -/
def values : Effect → List Scalar
  | .setVariable _ value => [value]
  | .oneOf members => valuesOfAll members
  | .provided condition member => condition.values ++ values member
  | _ => []

/-- The scalars of several effects. -/
def valuesOfAll : List Effect → List Scalar
  | [] => []
  | e :: es => values e ++ valuesOfAll es

end

theorem mem_numbersOfAll {n : Number} {es : List Effect} :
    n ∈ numbersOfAll es ↔ ∃ e ∈ es, n ∈ e.numbers := by
  induction es with
  | nil => simp [numbersOfAll]
  | cons e es ih => simp [numbersOfAll, ih]

theorem mem_valuesOfAll {x : Scalar} {es : List Effect} :
    x ∈ valuesOfAll es ↔ ∃ e ∈ es, x ∈ e.values := by
  induction es with
  | nil => simp [valuesOfAll]
  | cons e es ih => simp [valuesOfAll, ih]

theorem readsBack_toData {es : List Effect} (h : ∀ e ∈ es, e.toDatum.ReadsBack) :
    ∀ d ∈ toData es, d.ReadsBack := by
  induction es with
  | nil => exact List.forall_mem_nil _
  | cons e es ih =>
    rw [toData]
    exact List.forall_mem_cons.2
      ⟨h e List.mem_cons_self, ih fun e he => h e (List.mem_cons_of_mem _ he)⟩

/-- The datum of an effect is read back as it is. -/
theorem readsBack_toDatum {e : Effect} (h : e.WellFormed) (hvalues : ∀ x ∈ e.values, x.Writable) :
    e.toDatum.ReadsBack := by
  induction h with
  | setFlag hkey =>
    refine .object (by simp) ?_
    simp only [List.forall_mem_cons]
    exact ⟨.text _, .text _, .truth _, List.forall_mem_nil _⟩
  | addResource hkey hnumber | multiplyResource hkey hnumber | setResource hkey hnumber =>
    refine .object (by simp) ?_
    simp only [List.forall_mem_cons]
    exact ⟨.text _, .text _, Number.readsBack hnumber, List.forall_mem_nil _⟩
  | setVariable hkey =>
    refine .object (by simp) ?_
    simp only [List.forall_mem_cons]
    have hvalue := Scalar.readsBack_toDatum (hvalues _ List.mem_cons_self)
    exact ⟨.text _, .text _, hvalue, List.forall_mem_nil _⟩
  | goto =>
    refine .object (by simp) ?_
    simp only [List.forall_mem_cons]
    exact ⟨.text _, .text _, List.forall_mem_nil _⟩
  | oneOf h ih =>
    refine .object (by simp) ?_
    simp only [List.forall_mem_cons]
    have hmembers := readsBack_toData fun e he =>
      ih e he fun x hx => hvalues x (mem_valuesOfAll.2 ⟨e, he, hx⟩)
    exact ⟨.text _, .list hmembers, List.forall_mem_nil _⟩
  | provided hcondition h ih =>
    refine .object (by simp) ?_
    simp only [List.forall_mem_cons]
    have hcondition := Condition.readsBack_toDatum hcondition fun x hx =>
      hvalues x (List.mem_append_left _ hx)
    have hmember := ih fun x hx => hvalues x (List.mem_append_right _ hx)
    exact ⟨.text _, hcondition, hmember, List.forall_mem_nil _⟩
  | verbatim => exact .text _

theorem agreesEach_self {es : List Effect} (h : ∀ e ∈ es, e.agrees e = true) :
    agreesEach es es = true := by
  induction es with
  | nil => rfl
  | cons e es ih =>
    rw [agreesEach, h e List.mem_cons_self, ih fun e he => h e (List.mem_cons_of_mem _ he)]
    rfl

theorem agrees_self {e : Effect} (h : e.WellFormed) (hvalues : ∀ x ∈ e.values, x.Writable) :
    e.agrees e = true := by
  induction h with
  | setFlag hkey => simp [agrees]
  | addResource hkey hnumber | multiplyResource hkey hnumber | setResource hkey hnumber =>
    simp [agrees, Number.agrees_self (Number.place?_ne_none_of_isFinite hnumber)]
  | setVariable hkey => simp [agrees, Scalar.agrees_self (hvalues _ List.mem_cons_self)]
  | goto => simp [agrees]
  | oneOf h ih =>
    exact agreesEach_self fun e he =>
      ih e he fun x hx => hvalues x (mem_valuesOfAll.2 ⟨e, he, hx⟩)
  | provided hcondition h ih =>
    have hcondition := Condition.agrees_self hcondition fun x hx =>
      hvalues x (List.mem_append_left _ hx)
    have hmember := ih fun x hx => hvalues x (List.mem_append_right _ hx)
    simp [agrees, hcondition, hmember]
  | verbatim => simp [agrees]

end Effect

end Gamebook
