import Gamebook.Condition.Holds
import Gamebook.Proofs.NormalEffect

/-!
# Undefined values of variables

Only where a variable is compared with a scalar or given one can a condition or an effect that was
read have an undefined number.  Its object writes that number as `NaN`, so what is read from the
object is the condition or the effect with the undefined numbers that documents write
(`Condition.ofText_compact`, `Effect.ofText_compact`).  Such a condition is evaluated alike in every state
(`Condition.evaluate_asWritten`).
-/

namespace Gamebook

theorem Number.plainText_asWritten (n : Number) : n.asWritten.plainText = n.plainText := by
  unfold asWritten
  split <;> rfl

theorem Number.isTooLong_asWritten (n : Number) : n.asWritten.isTooLong = n.isTooLong := by
  unfold asWritten
  split <;> rfl

namespace Scalar

theorem toDatum_asWritten (x : Scalar) : x.asWritten.toDatum = x.toDatum.asWritten := by
  cases x <;> rfl

theorem comparedText_asWritten (x : Scalar) :
    x.asWritten.toDatum.comparedText = x.toDatum.comparedText := by
  cases x with
  | number n => exact n.plainText_asWritten
  | _ => rfl

theorem hasTooLong_asWritten (x : Scalar) :
    x.asWritten.toDatum.hasTooLong = x.toDatum.hasTooLong := by
  cases x with
  | number n => exact n.isTooLong_asWritten
  | _ => rfl

theorem writeCompared_asWritten (x : Scalar) :
    x.asWritten.toDatum.writeCompared = x.toDatum.writeCompared := by
  rw [Datum.writeCompared, Datum.writeCompared, x.hasTooLong_asWritten, x.comparedText_asWritten]

end Scalar

/-! ## Conditions -/

namespace Condition

mutual

/-- A condition with the other undefined numbers is evaluated alike. -/
theorem evaluate_asWritten (s : State) : (c : Condition) → c.asWritten.evaluate s = c.evaluate s
  | .variableIs key likeness value => by
    rw [asWritten, evaluate, evaluate, testVariable, testVariable, value.writeCompared_asWritten]
  | .allOf members => by rw [asWritten, evaluate, evaluate, evaluateAll_asWrittenEach s members]
  | .anyOf members => by rw [asWritten, evaluate, evaluate, evaluateAny_asWrittenEach s members]
  | .negation member => by rw [asWritten, evaluate, evaluate, evaluate_asWritten s member]
  | .flagIs .. | .resourceIs .. | .during .. | .verbatim _ => rfl

theorem evaluateAll_asWrittenEach (s : State) : (cs : List Condition) →
    evaluateAll s (asWrittenEach cs) = evaluateAll s cs
  | [] => rfl
  | c :: cs => by
    rw [asWrittenEach, evaluateAll, evaluateAll, evaluate_asWritten s c,
      evaluateAll_asWrittenEach s cs]

theorem evaluateAny_asWrittenEach (s : State) : (cs : List Condition) →
    evaluateAny s (asWrittenEach cs) = evaluateAny s cs
  | [] => rfl
  | c :: cs => by
    rw [asWrittenEach, evaluateAny, evaluateAny, evaluate_asWritten s c,
      evaluateAny_asWrittenEach s cs]

end

mutual

/-- The other undefined numbers are no longer. -/
theorem hasTooLong_asWritten : (c : Condition) →
    c.asWritten.toDatum.hasTooLong = c.toDatum.hasTooLong
  | .variableIs key likeness value => by
    simp [asWritten, toDatum, Datum.hasTooLong, Datum.memberTooLong, value.hasTooLong_asWritten]
  | .allOf members | .anyOf members => by
    simp [asWritten, toDatum, Datum.hasTooLong, Datum.memberTooLong,
      someTooLong_asWrittenEach members]
  | .negation member => by
    simp [asWritten, toDatum, Datum.hasTooLong, Datum.memberTooLong, hasTooLong_asWritten member]
  | .flagIs .. | .resourceIs .. | .during .. | .verbatim _ => rfl

theorem someTooLong_asWrittenEach : (cs : List Condition) →
    Datum.someTooLong (toData (asWrittenEach cs)) = Datum.someTooLong (toData cs)
  | [] => rfl
  | c :: cs => by
    rw [asWrittenEach, toData, toData, Datum.someTooLong, Datum.someTooLong,
      hasTooLong_asWritten c, someTooLong_asWrittenEach cs]

end

/-- What is read from the object of a condition. -/
theorem ofText_compact {c : Condition} (h : c.WellFormed) (hshort : c.toDatum.hasTooLong = false)
    (hverbatim : ∀ s, c ≠ .verbatim s) :
    ofText c.toDatum.compact = .ok (some c.asWritten) := by
  have hread := Datum.read_compact hshort (settle_toDatum c)
  have hdatum := mirrors_ofDatum c.toDatum
  rw [ofDatum_toDatum h] at hdatum
  obtain ⟨ms, hms⟩ := exists_toDatum_eq hverbatim
  rw [hms] at hread hdatum ⊢
  rw [ofText_compact_object hread, ofObject_eq, hdatum.eq_ok]
  rfl

end Condition

/-! ## Effects -/

namespace Effect

mutual

/-- The other undefined numbers are no longer. -/
theorem hasTooLong_asWritten : (e : Effect) →
    e.asWritten.toDatum.hasTooLong = e.toDatum.hasTooLong
  | .setVariable key value => by
    simp [asWritten, toDatum, Datum.hasTooLong, Datum.memberTooLong, value.hasTooLong_asWritten]
  | .oneOf members => by
    simp [asWritten, toDatum, Datum.hasTooLong, Datum.memberTooLong,
      someTooLong_asWrittenEach members]
  | .provided condition member => by
    simp [asWritten, toDatum, Datum.hasTooLong, Datum.memberTooLong,
      condition.hasTooLong_asWritten, hasTooLong_asWritten member]
  | .setFlag .. | .addResource .. | .multiplyResource .. | .setResource .. | .goto _
  | .verbatim _ => rfl

theorem someTooLong_asWrittenEach : (es : List Effect) →
    Datum.someTooLong (toData (asWrittenEach es)) = Datum.someTooLong (toData es)
  | [] => rfl
  | e :: es => by
    rw [asWrittenEach, toData, toData, Datum.someTooLong, Datum.someTooLong,
      hasTooLong_asWritten e, someTooLong_asWrittenEach es]

end

/-- What is read from the object of an effect. -/
theorem ofText_compact {e : Effect} (h : e.WellFormed) (hshort : e.toDatum.hasTooLong = false)
    (hverbatim : ∀ s, e ≠ .verbatim s) :
    ofText e.toDatum.compact = .ok (some e.asWritten) := by
  have hread := Datum.read_compact hshort (settle_toDatum e)
  have hdatum := mirrors_ofDatum e.toDatum
  rw [ofDatum_toDatum h] at hdatum
  obtain ⟨ms, hms⟩ := exists_toDatum_eq hverbatim
  rw [hms] at hread hdatum ⊢
  rw [ofText_compact_object hread, ofObject_eq, hdatum.eq_ok]
  rfl

end Effect

end Gamebook
