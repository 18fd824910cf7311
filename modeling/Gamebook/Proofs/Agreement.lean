import Gamebook.Datum.Printer
import Gamebook.Effect.Tagged
import Gamebook.Proofs.InRange

/-!
# Numbers that agree

Numbers that agree are the same number, or the same integer in both kinds (`Number.eq_or_whole_of_agrees`).
So they have the same plain text, and if one of them has few enough digits to be written, so has the
other.  The same is true of conditions and effects that agree (`Condition.short_of_agrees`,
`Effect.short_of_agrees`).  Whatever agrees with something agrees with itself (`Condition.agrees_left`,
`Effect.agrees_left`); an undefined number need not.
-/

namespace Gamebook

namespace Number

/-- The integer that a number is, in either kind. -/
def whole? : Number → Option Int
  | .int k => some k
  | .float x => x.toInt?

theorem plainText_of_whole? {n : Number} {k : Int} (h : n.whole? = some k) :
    n.plainText = Numeral.ofInt k := by
  cases n with
  | int m =>
    obtain rfl := Option.some.inj h
    rfl
  | float x =>
    have hx : x.toInt? = some k := h
    simp only [plainText, hx]

theorem isTooLong_float (x : Binary64) : (Number.float x).isTooLong = false := rfl

theorem isTooLong_of_natAbs_lt {k : Int} (h : k.natAbs < 2 ^ 1025) :
    (Number.int k).isTooLong = false :=
  decide_eq_false (Nat.not_lt.2 (length_digits_le_of_lt h))

theorem signedGrains_mul (negative : Bool) (a b : Nat) :
    Binary64.signedGrains negative (a * b) = Binary64.signedGrains negative a * b := by
  unfold Binary64.signedGrains
  split
  · rw [Int.natCast_mul, Int.neg_mul]
  · rw [Int.natCast_mul]

/-- A floating point number with as many grains as an integer is that integer. -/
theorem toInt?_of_signedGrains {negative : Bool} {grains : Nat}
    (hrep : Binary64.Representable grains) {k : Int}
    (h : Binary64.signedGrains negative grains = k * Binary64.one) :
    (Binary64.finite negative grains hrep).toInt? = some k := by
  have hone := Binary64.one_pos
  have hgrains : grains = k.natAbs * Binary64.one := by
    rw [← natAbs_signedGrains negative grains, h, Int.natAbs_mul, Int.natAbs_natCast]
  have hmod : grains % Binary64.one = 0 := by
    rw [hgrains]
    exact Nat.mul_mod_left _ _
  have hdiv : grains / Binary64.one = k.natAbs := by
    rw [hgrains]
    exact Nat.mul_div_cancel _ hone
  have hsigned : Binary64.signedGrains negative k.natAbs = k := by
    rw [hgrains, signedGrains_mul] at h
    exact Int.eq_of_mul_eq_mul_right (Int.natCast_ne_zero.2 (Nat.ne_of_gt hone)) h
  rw [Binary64.toInt?, if_pos hmod, hdiv, hsigned]

theorem toInt?_zero (negative : Bool) (hrep : Binary64.Representable 0) :
    (Binary64.finite negative 0 hrep).toInt? = some 0 := by
  refine toInt?_of_signedGrains hrep ?_
  rw [Int.zero_mul]
  cases negative <;> rfl

/-- Numbers of the same value differ at most in kind, or in the sign of a zero. -/
theorem eq_or_whole_of_place? {m n : Number} (h : m.place? = n.place?) (hm : m.place? ≠ none) :
    m = n ∨ ∃ k, m.whole? = some k ∧ n.whole? = some k := by
  cases m with
  | int i =>
    cases n with
    | int j =>
      have hij : i * (Binary64.one : Int) = j * Binary64.one := Place.at.inj (Option.some.inj h)
      have hone : (Binary64.one : Int) ≠ 0 := Int.natCast_ne_zero.2 (Nat.ne_of_gt Binary64.one_pos)
      exact .inl (congrArg Number.int (Int.eq_of_mul_eq_mul_right hone hij))
    | float x =>
      cases x with
      | finite t b hb =>
        have hplace : i * (Binary64.one : Int) = Binary64.signedGrains t b :=
          Place.at.inj (Option.some.inj h)
        exact .inr ⟨i, rfl, toInt?_of_signedGrains hb hplace.symm⟩
      | infinite t => cases t <;> cases h
      | undefined origin => cases h
  | float x =>
    cases x with
    | finite s a ha =>
      cases n with
      | int j =>
        have hplace : Binary64.signedGrains s a = j * (Binary64.one : Int) :=
          Place.at.inj (Option.some.inj h)
        exact .inr ⟨j, toInt?_of_signedGrains ha hplace, rfl⟩
      | float y =>
        cases y with
        | finite t b hb =>
          have hplace : Binary64.signedGrains s a = Binary64.signedGrains t b :=
            Place.at.inj (Option.some.inj h)
          obtain rfl : a = b := by
            rw [← natAbs_signedGrains s a, hplace, natAbs_signedGrains]
          by_cases hst : s = t
          · subst hst
            exact .inl rfl
          · -- only zero has as many grains with either sign
            obtain rfl : a = 0 := by
              unfold Binary64.signedGrains at hplace
              cases s <;> cases t <;> simp at hst hplace <;> omega
            exact .inr ⟨0, toInt?_zero s ha, toInt?_zero t hb⟩
        | infinite t => cases t <;> cases h
        | undefined origin => cases h
    | infinite s =>
      cases n with
      | int j => cases s <;> cases h
      | float y =>
        cases y with
        | finite t b hb => cases s <;> cases h
        | infinite t => cases s <;> cases t <;> cases h <;> exact .inl rfl
        | undefined origin => cases s <;> cases h
    | undefined origin => exact absurd rfl hm

theorem agrees_cases {m n : Number} (h : m.agrees n = true) :
    m = .float (.undefined .written) ∧ n = .float (.undefined .written) ∨ m.place? ≠ none := by
  unfold agrees at h
  split at h
  · exact .inl ⟨rfl, rfl⟩
  · right
    unfold eq at h
    split at h
    · next hp _ =>
      rw [hp]
      exact Option.some_ne_none _
    · cases h

theorem agrees_left {m n : Number} (h : m.agrees n = true) : m.agrees m = true := by
  rcases agrees_cases h with ⟨rfl, -⟩ | hm
  · rfl
  · exact agrees_self hm

/-- Numbers that agree differ at most in kind, or in the sign of a zero. -/
theorem eq_or_whole_of_agrees {m n : Number} (h : m.agrees n = true) :
    m = n ∨ ∃ k, m.whole? = some k ∧ n.whole? = some k := by
  rcases agrees_cases h with ⟨rfl, rfl⟩ | hm
  · exact .inl rfl
  · exact eq_or_whole_of_place? (place?_eq_of_agrees h) hm

theorem plainText_eq_of_agrees {m n : Number} (h : m.agrees n = true) :
    m.plainText = n.plainText := by
  rcases eq_or_whole_of_agrees h with rfl | ⟨k, hm, hn⟩
  · rfl
  · rw [plainText_of_whole? hm, plainText_of_whole? hn]

theorem isTooLong_of_agrees {m n : Number} (h : m.agrees n = true) (hn : n.isTooLong = false) :
    m.isTooLong = false := by
  rcases eq_or_whole_of_agrees h with rfl | ⟨k, hm, hk⟩
  · exact hn
  · cases m with
    | float x => exact isTooLong_float x
    | int i =>
      obtain rfl := Option.some.inj hm
      cases n with
      | int j =>
        obtain rfl := Option.some.inj hk
        exact hn
      | float x => exact isTooLong_of_natAbs_lt (natAbs_lt_of_toInt? hk)

end Number

theorem Scalar.agrees_left {x y : Scalar} (h : x.agrees y = true) : x.agrees x = true := by
  cases x with
  | text s => exact beq_self_eq_true s
  | truth b => exact beq_self_eq_true b
  | number m =>
    cases y with
    | text t => cases h
    | number n => exact Number.agrees_left h
    | truth b => exact Number.agrees_left (n := ofTruth b) h

mutual

/-- What agrees with something agrees with itself. -/
theorem Condition.agrees_left : (c d : Condition) → c.agrees d = true → c.agrees c = true
  | .flagIs .., _, _ | .verbatim _, _, _ => by simp [agrees]
  | .resourceIs k r m, d, h => by
    cases d with
    | resourceIs l q n =>
      simp only [agrees, Bool.and_eq_true] at h
      simp [agrees, Number.agrees_left h.2]
    | _ => cases h
  | .variableIs k r x, d, h => by
    cases d with
    | variableIs l q y =>
      simp only [agrees, Bool.and_eq_true] at h
      simp [agrees, Scalar.agrees_left h.2]
    | _ => cases h
  | .during a b, d, h => by
    cases d with
    | during c d =>
      simp only [agrees, Bool.and_eq_true] at h
      simp [agrees, Number.agrees_left h.1, Number.agrees_left h.2]
    | _ => cases h
  | .allOf cs, d, h => by
    cases d with
    | allOf ds => exact Condition.agreesEach_left cs ds h
    | _ => cases h
  | .anyOf cs, d, h => by
    cases d with
    | anyOf ds => exact Condition.agreesEach_left cs ds h
    | _ => cases h
  | .negation c, d, h => by
    cases d with
    | negation d => exact Condition.agrees_left c d h
    | _ => cases h

theorem Condition.agreesEach_left : (cs ds : List Condition) → agreesEach cs ds = true →
    agreesEach cs cs = true
  | [], _, _ => rfl
  | _ :: _, [], h => by cases h
  | c :: cs, d :: ds, h => by
    simp only [agreesEach, Bool.and_eq_true] at h ⊢
    exact ⟨Condition.agrees_left c d h.1, Condition.agreesEach_left cs ds h.2⟩

end

mutual

/-- What agrees with something agrees with itself. -/
theorem Effect.agrees_left : (e f : Effect) → e.agrees f = true → e.agrees e = true
  | .setFlag .., _, _ | .goto _, _, _ | .verbatim _, _, _ => by simp [agrees]
  | .addResource k m, f, h => by
    cases f with
    | addResource l n =>
      simp only [agrees, Bool.and_eq_true] at h
      simp [agrees, Number.agrees_left h.2]
    | _ => cases h
  | .multiplyResource k m, f, h => by
    cases f with
    | multiplyResource l n =>
      simp only [agrees, Bool.and_eq_true] at h
      simp [agrees, Number.agrees_left h.2]
    | _ => cases h
  | .setResource k m, f, h => by
    cases f with
    | setResource l n =>
      simp only [agrees, Bool.and_eq_true] at h
      simp [agrees, Number.agrees_left h.2]
    | _ => cases h
  | .setVariable k x, f, h => by
    cases f with
    | setVariable l y =>
      simp only [agrees, Bool.and_eq_true] at h
      simp [agrees, Scalar.agrees_left h.2]
    | _ => cases h
  | .oneOf es, f, h => by
    cases f with
    | oneOf fs => exact Effect.agreesEach_left es fs h
    | _ => cases h
  | .provided c e, f, h => by
    cases f with
    | provided d f =>
      simp only [agrees, Bool.and_eq_true] at h ⊢
      exact ⟨Condition.agrees_left c d h.1, Effect.agrees_left e f h.2⟩
    | _ => cases h

theorem Effect.agreesEach_left : (es fs : List Effect) → agreesEach es fs = true →
    agreesEach es es = true
  | [], _, _ => rfl
  | _ :: _, [], h => by cases h
  | e :: es, f :: fs, h => by
    simp only [agreesEach, Bool.and_eq_true] at h ⊢
    exact ⟨Effect.agrees_left e f h.1, Effect.agreesEach_left es fs h.2⟩

end

/-! ## Numbers that can be written -/

theorem Condition.someTooLong_toData_eq_false {cs : List Condition} :
    Datum.someTooLong (toData cs) = false ↔ ∀ c ∈ cs, c.toDatum.hasTooLong = false := by
  induction cs with
  | nil => simp [toData, Datum.someTooLong]
  | cons c cs ih => simp [toData, Datum.someTooLong, ih]

theorem Effect.someTooLong_toData_eq_false {es : List Effect} :
    Datum.someTooLong (toData es) = false ↔ ∀ e ∈ es, e.toDatum.hasTooLong = false := by
  induction es with
  | nil => simp [toData, Datum.someTooLong]
  | cons e es ih => simp [toData, Datum.someTooLong, ih]

theorem Effect.short_oneOf_iff {es : List Effect} :
    (oneOf es).toDatum.hasTooLong = false ↔ ∀ e ∈ es, e.toDatum.hasTooLong = false := by
  rw [← someTooLong_toData_eq_false]
  simp [toDatum, Datum.hasTooLong, Datum.memberTooLong]

theorem Effect.short_provided_iff {c : Condition} {e : Effect} :
    (provided c e).toDatum.hasTooLong = false ↔
      c.toDatum.hasTooLong = false ∧ e.toDatum.hasTooLong = false := by
  simp [toDatum, Datum.hasTooLong, Datum.memberTooLong]

theorem Scalar.short_of_agrees {x y : Scalar} (h : x.agrees y = true)
    (hy : y.toDatum.hasTooLong = false) : x.toDatum.hasTooLong = false := by
  cases x with
  | text s => rfl
  | truth b => rfl
  | number m =>
    cases y with
    | text s => cases h
    | number n => exact Number.isTooLong_of_agrees h hy
    | truth b => exact Number.isTooLong_of_agrees (n := ofTruth b) h (by cases b <;> decide +kernel)

mutual

/-- What agrees with a condition that can be written can be written. -/
theorem Condition.short_of_agrees : (c d : Condition) → c.agrees d = true →
    d.toDatum.hasTooLong = false → c.toDatum.hasTooLong = false
  | .flagIs .., _, _, _ | .verbatim _, _, _, _ => rfl
  | .resourceIs k r m, d, h, hd => by
    cases d with
    | resourceIs l q n =>
      simp only [agrees, Bool.and_eq_true] at h
      have hm := Number.isTooLong_of_agrees h.2
      simp_all [toDatum, Datum.hasTooLong, Datum.memberTooLong]
    | _ => cases h
  | .variableIs k r x, d, h, hd => by
    cases d with
    | variableIs l q y =>
      simp only [agrees, Bool.and_eq_true] at h
      have hx := Scalar.short_of_agrees h.2
      simp_all [toDatum, Datum.hasTooLong, Datum.memberTooLong]
    | _ => cases h
  | .during a b, d, h, hd => by
    cases d with
    | during c d =>
      simp only [agrees, Bool.and_eq_true] at h
      have ha := Number.isTooLong_of_agrees h.1
      have hb := Number.isTooLong_of_agrees h.2
      simp_all [toDatum, Datum.hasTooLong, Datum.memberTooLong]
    | _ => cases h
  | .allOf cs, d, h, hd => by
    cases d with
    | allOf ds =>
      have hcs := Condition.short_of_agreesEach cs ds h
      simp_all [toDatum, Datum.hasTooLong, Datum.memberTooLong]
    | _ => cases h
  | .anyOf cs, d, h, hd => by
    cases d with
    | anyOf ds =>
      have hcs := Condition.short_of_agreesEach cs ds h
      simp_all [toDatum, Datum.hasTooLong, Datum.memberTooLong]
    | _ => cases h
  | .negation c, d, h, hd => by
    cases d with
    | negation d =>
      have hc := Condition.short_of_agrees c d h
      simp_all [toDatum, Datum.hasTooLong, Datum.memberTooLong]
    | _ => cases h

theorem Condition.short_of_agreesEach : (cs ds : List Condition) → agreesEach cs ds = true →
    Datum.someTooLong (toData ds) = false → Datum.someTooLong (toData cs) = false
  | [], _, _, _ => rfl
  | _ :: _, [], h, _ => by cases h
  | c :: cs, d :: ds, h, hds => by
    simp only [agreesEach, Bool.and_eq_true] at h
    simp only [toData, Datum.someTooLong, Bool.or_eq_false_iff] at hds ⊢
    exact ⟨Condition.short_of_agrees c d h.1 hds.1, Condition.short_of_agreesEach cs ds h.2 hds.2⟩

end

mutual

/-- What agrees with an effect that can be written can be written. -/
theorem Effect.short_of_agrees : (e f : Effect) → e.agrees f = true →
    f.toDatum.hasTooLong = false → e.toDatum.hasTooLong = false
  | .setFlag .., _, _, _ | .goto _, _, _, _ | .verbatim _, _, _, _ => rfl
  | .addResource k m, f, h, hf | .multiplyResource k m, f, h, hf | .setResource k m, f, h, hf => by
    cases f <;> first
      | cases h
      | simp only [agrees, Bool.and_eq_true] at h
        have hm := Number.isTooLong_of_agrees h.2
        simp_all [toDatum, Datum.hasTooLong, Datum.memberTooLong]
  | .setVariable k x, f, h, hf => by
    cases f with
    | setVariable l y =>
      simp only [agrees, Bool.and_eq_true] at h
      have hx := Scalar.short_of_agrees h.2
      simp_all [toDatum, Datum.hasTooLong, Datum.memberTooLong]
    | _ => cases h
  | .oneOf es, f, h, hf => by
    cases f with
    | oneOf fs =>
      have hes := Effect.short_of_agreesEach es fs h
      simp_all [toDatum, Datum.hasTooLong, Datum.memberTooLong]
    | _ => cases h
  | .provided c e, f, h, hf => by
    cases f with
    | provided d f =>
      simp only [agrees, Bool.and_eq_true] at h
      have hc := Condition.short_of_agrees c d h.1
      have he := Effect.short_of_agrees e f h.2
      simp_all [toDatum, Datum.hasTooLong, Datum.memberTooLong]
    | _ => cases h

theorem Effect.short_of_agreesEach : (es fs : List Effect) → agreesEach es fs = true →
    Datum.someTooLong (toData fs) = false → Datum.someTooLong (toData es) = false
  | [], _, _, _ => rfl
  | _ :: _, [], h, _ => by cases h
  | e :: es, f :: fs, h, hfs => by
    simp only [agreesEach, Bool.and_eq_true] at h
    simp only [toData, Datum.someTooLong, Bool.or_eq_false_iff] at hfs ⊢
    exact ⟨Effect.short_of_agrees e f h.1 hfs.1, Effect.short_of_agreesEach es fs h.2 hfs.2⟩

end

end Gamebook
