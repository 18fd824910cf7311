import Gamebook.Proofs.Agreement
import Mathlib.Algebra.Field.Rat

/-!
# Values of numbers and their texts

An integer and a finite floating point number each have a value, a rational number
(`Number.value`), and numbers are equal if their values are (`Number.eq_eq_decide_value`).  The plain
text of a number tells the value and nothing more: an integral number is spelled as an integer in
either kind, and any other one has a text that reads back as the number.  So two numbers that are
written have the same plain text if and only if they have the same value (`Number.plainText_eq_iff`).
-/

namespace Gamebook.Number

/-- An integer of any size or a finite floating point number. -/
def Proper (n : Number) : Prop :=
  ∀ x, n = .float x → x.isFinite = true

theorem proper_int (k : Int) : (Number.int k).Proper := by
  intro x h
  cases h

theorem proper_float {x : Binary64} (h : x.isFinite = true) : (Number.float x).Proper := by
  rintro _ ⟨⟩
  exact h

/-- The value of a number; zero stands for that of one which is not finite. -/
def value : Number → ℚ
  | .int k => k
  | .float (.finite negative grains _) => Binary64.signedGrains negative grains / Binary64.one
  | .float _ => 0

/-! ## Values and places -/

theorem one_ne_zero : (Binary64.one : ℚ) ≠ 0 :=
  Nat.cast_ne_zero.2 (Nat.ne_of_gt Binary64.one_pos)

/-- The place of a number is its value in grains. -/
theorem exists_place? {n : Number} (h : n.Proper) :
    ∃ grains : Int, n.place? = some (.at grains) ∧ n.value = grains / Binary64.one := by
  cases n with
  | int k =>
    refine ⟨k * Binary64.one, rfl, ?_⟩
    rw [Int.cast_mul, Int.cast_natCast, mul_div_cancel_right₀ _ one_ne_zero]
    rfl
  | float x =>
    have hx := h x rfl
    cases x with
    | finite negative grains hrep => exact ⟨_, rfl, rfl⟩
    | infinite negative => cases hx
    | undefined origin => cases hx

theorem place?_ne_none {n : Number} (h : n.Proper) : n.place? ≠ none := by
  obtain ⟨grains, hplace, -⟩ := exists_place? h
  rw [hplace]
  exact Option.some_ne_none _

theorem value_eq_iff {m n : Number} (hm : m.Proper) (hn : n.Proper) :
    m.value = n.value ↔ m.place? = n.place? := by
  obtain ⟨a, ha, hma⟩ := exists_place? hm
  obtain ⟨b, hb, hnb⟩ := exists_place? hn
  rw [hma, hnb, ha, hb, div_left_inj' one_ne_zero, Int.cast_inj, Option.some.injEq, Place.at.injEq]

/-- Numbers are equal if their values are. -/
theorem eq_eq_decide_value {m n : Number} (hm : m.Proper) (hn : n.Proper) :
    m.eq n = decide (m.value = n.value) := by
  obtain ⟨a, ha, -⟩ := exists_place? hm
  obtain ⟨b, hb, -⟩ := exists_place? hn
  have hiff := value_eq_iff hm hn
  rw [ha, hb] at hiff
  simp only [eq, ha, hb, hiff, Option.some.injEq]
  rfl

/-! ## Texts that tell the kinds apart -/

/-- The text of a number that is written reads back as the number, so no other number has it. -/
theorem text_injective {m n : Number} (hm : m.Proper) (hn : n.Proper) (hmlong : m.isTooLong = false)
    (hnlong : n.isTooLong = false) (h : m.text = n.text) : m = n := by
  obtain ⟨p, hp, hptext, hpm⟩ := exists_parts_text hm hmlong
  obtain ⟨q, hq, hqtext, hqn⟩ := exists_parts_text hn hnlong
  have hnothing : EndsNumber [] := nofun
  have hcutp := Parts.cutNumber?_text hp hnothing
  have hcutq := Parts.cutNumber?_text hq hnothing
  rw [hptext, h, ← hqtext, hcutq] at hcutp
  obtain rfl : q = p := congrArg Prod.fst (Option.some.inj hcutp)
  exact Except.ok.inj (hpm.symm.trans hqn)

/-! ## Plain texts -/

/-- The number as an integer if it is one in either kind. -/
def reduced (n : Number) : Number :=
  n.whole?.elim n .int

theorem text_reduced (n : Number) : n.reduced.text = n.plainText := by
  unfold reduced
  cases hwhole : n.whole? with
  | some k => exact (plainText_of_whole? hwhole).symm
  | none =>
    cases n with
    | int k => cases hwhole
    | float x =>
      have hx : x.toInt? = none := hwhole
      simp only [Option.elim_none, text, plainText, hx]

theorem place?_of_whole? {n : Number} {k : Int} (h : n.whole? = some k) :
    n.place? = some (.at (k * Binary64.one)) := by
  cases n with
  | int m =>
    obtain rfl := Option.some.inj h
    rfl
  | float x =>
    cases x with
    | finite negative grains hrep =>
      obtain ⟨hmod, hk⟩ := Option.ite_none_right_eq_some.1 h
      obtain rfl := Option.some.inj hk
      have hgrains : grains / Binary64.one * Binary64.one = grains :=
        Nat.div_mul_cancel (Nat.dvd_of_mod_eq_zero hmod)
      rw [← signedGrains_mul, hgrains]
      rfl
    | infinite negative => cases h
    | undefined origin => cases h

theorem place?_reduced (n : Number) : n.reduced.place? = n.place? := by
  unfold reduced
  cases hwhole : n.whole? with
  | some k => exact (place?_of_whole? hwhole).symm
  | none => rfl

theorem proper_reduced {n : Number} (h : n.Proper) : n.reduced.Proper := by
  unfold reduced
  cases n.whole? with
  | some k => exact proper_int k
  | none => exact h

theorem isTooLong_reduced {n : Number} (h : n.isTooLong = false) : n.reduced.isTooLong = false := by
  unfold reduced
  cases hwhole : n.whole? with
  | some k =>
    cases n with
    | int m =>
      obtain rfl := Option.some.inj hwhole
      exact h
    | float x => exact isTooLong_of_natAbs_lt (natAbs_lt_of_toInt? hwhole)
  | none => exact h

/-- Numbers that are written have the same plain text if and only if they have the same value. -/
theorem plainText_eq_iff {m n : Number} (hm : m.Proper) (hn : n.Proper)
    (hmlong : m.isTooLong = false) (hnlong : n.isTooLong = false) :
    m.plainText = n.plainText ↔ m.value = n.value := by
  rw [value_eq_iff hm hn]
  constructor
  · intro h
    rw [← text_reduced, ← text_reduced] at h
    have hreduced := text_injective (proper_reduced hm) (proper_reduced hn) (isTooLong_reduced hmlong)
      (isTooLong_reduced hnlong) h
    rw [← place?_reduced m, hreduced, place?_reduced]
  · intro h
    rcases eq_or_whole_of_place? h (place?_ne_none hm) with rfl | ⟨k, hk, hk'⟩
    · rfl
    · rw [plainText_of_whole? hk, plainText_of_whole? hk']

end Gamebook.Number
