import Gamebook.Proofs.Notation
import Gamebook.Proofs.Rounding

/-!
# Texts of floating point numbers

The text of a finite number is cut off the front of any text that it begins, and its parts are
rounded to the number again (`cutNumber?_finiteText`).

A decimal denotes a magnitude if it is rounded to it under either sign.  The search for the shortest
decimal finds one that does, or falls back to the exact expansion, which does; and neither the zeros
that are removed nor the place of the point changes what it is rounded to.
-/

namespace Gamebook.Binary64

namespace Decimal

/-- A decimal is rounded to a magnitude, under either sign. -/
structure Denotes (d : Decimal) (grains : Nat) : Prop where
  pos : 0 < d.coefficient
  round : ∀ negative, ofDecimal negative d.coefficient d.exponent = ofGrains negative grains

variable {d : Decimal} {grains : Nat}

/-- The sign takes no part in rounding, so reading back without one is enough. -/
theorem denotes_of_reads (hgrains : 0 < grains) (h : d.reads grains = true) : d.Denotes grains := by
  have hpos : 0 < d.coefficient := by
    apply Nat.pos_of_ne_zero
    intro hzero
    unfold reads ofDecimal at h
    rw [if_pos hzero] at h
    have hgrains' : 0 = grains := by simpa [zero] using h
    omega
  obtain ⟨num, den, hround⟩ : ∃ num den, ∀ negative,
      ofDecimal negative d.coefficient d.exponent = ofQuotient negative num den := by
    simp only [ofDecimal_eq _ hpos.ne']
    split
    · exact ⟨_, _, fun _ => rfl⟩
    · exact ⟨_, _, fun _ => rfl⟩
  have hnearest : nearest num den = grains := by
    unfold reads at h
    rw [hround, ofQuotient, ofGrains] at h
    by_cases hrep : Representable (nearest num den)
    · rw [dif_pos hrep] at h
      exact of_decide_eq_true h
    · rw [dif_neg hrep] at h
      cases h
  refine ⟨hpos, fun negative => ?_⟩
  rw [hround, ofQuotient, hnearest]

theorem denotes_exact (hgrains : 0 < grains) (hrep : Representable grains) :
    (exact grains).Denotes grains := by
  -- the powers must not be calculated, so their exponent is a variable
  obtain ⟨bits, hbits, hpos⟩ : ∃ bits, grainBits = bits ∧ 0 < bits := ⟨_, rfl, by decide⟩
  have hone : one = 2 ^ bits := congrArg (Nat.pow 2) hbits
  rw [exact, hbits]
  have hpow : 0 < Nat.pow 5 bits := Nat.pow_pos (by decide)
  refine ⟨Nat.mul_pos hgrains hpow, fun negative => ?_⟩
  show ofDecimal negative (grains * Nat.pow 5 bits) (-(bits : Int)) = _
  have hten : Nat.pow 5 bits * one = 10 ^ bits := by
    rw [hone, Nat.pow_eq, ← Nat.mul_pow]
  have hden : 0 < 10 ^ bits := Nat.pow_pos (by decide)
  have hneg : ¬ (0 : Int) ≤ -(bits : Int) := by omega
  have hnearest := nearest_mul hden hrep.1
  rw [ofDecimal_eq negative (Nat.mul_pos hgrains hpow).ne', if_neg hneg, Int.neg_neg,
    Int.toNat_natCast, Nat.mul_assoc, hten, ofQuotient, hnearest]

theorem denotes_search (hgrains : 0 < grains) (hrep : Representable grains) (lead : Int)
    (count fuel : Nat) : (search grains lead count fuel).Denotes grains := by
  induction fuel generalizing count with
  | zero => exact denotes_exact hgrains hrep
  | succ fuel ih =>
    unfold search
    split
    · next d hfind =>
      have hreads : d.reads grains = true := by simpa using List.find?_some hfind
      exact denotes_of_reads hgrains hreads
    · exact ih (count + 1)

theorem Denotes.trimmed (h : d.Denotes grains) (fuel : Nat) : (d.trimmed fuel).Denotes grains := by
  induction fuel generalizing d with
  | zero => exact h
  | succ fuel ih =>
    unfold Decimal.trimmed
    split
    · next hzero =>
      have hpos := h.pos
      have hpos' : 0 < d.coefficient / 10 := by omega
      have htens : d.coefficient = d.coefficient / 10 * 10 ^ 1 := by omega
      refine ih ⟨hpos', fun negative => ?_⟩
      have hround := h.round negative
      rw [htens, ofDecimal_mul_pow] at hround
      exact hround
    · exact h

theorem denotes_shortest (hgrains : 0 < grains) (hrep : Representable grains) :
    (shortest grains).Denotes grains :=
  (denotes_search hgrains hrep _ _ _).trimmed 17

/-! ## Layout -/

open Number (Parts)
open Numeral (isDigit)

/-- A layout is the notation of parts that are rounded like the decimal. -/
structure Spells (d : Decimal) (p : Parts) : Prop where
  wellFormed : p.WellFormed
  isInt : p.isInt = false
  text : p.text = signText p.negative ++ d.layout
  round : p.toBinary64 = ofDecimal p.negative d.coefficient d.exponent

/-- A small number has nothing but zeros in front of its digits. -/
theorem spells_small (negative : Bool) {zeros : Nat} (hzeros : zeros < 4)
    (hpoint : d.exponent + (Numeral.digits d.coefficient).length = -zeros) :
    d.Spells
      { negative, whole := ['0'],
        fraction := some (List.replicate zeros '0' ++ Numeral.digits d.coefficient) } := by
  have hdigits : ∀ c ∈ Numeral.digits d.coefficient, isDigit c = true :=
    Numeral.isDigit_of_mem_digits
  refine ⟨⟨.inl rfl, ?_⟩, rfl, ?_, ?_⟩
  · rintro _ ⟨⟩
    refine ⟨List.append_ne_nil_of_right_ne_nil _ (Numeral.digits_ne_nil _), fun c hc => ?_⟩
    rcases List.mem_append.1 hc with hc | hc
    · rw [List.eq_of_mem_replicate hc]
      decide
    · exact hdigits c hc
  · unfold layout
    simp only [hpoint]
    rw [if_pos (by omega), if_pos (by omega), Int.neg_neg, Int.toNat_natCast]
    show _ ++ (_ ++ (_ ++ [])) = _
    rw [List.append_nil]
    rfl
  · have hexponent : (0 : Int) - (List.replicate zeros '0' ++ Numeral.digits d.coefficient).length =
        d.exponent := by
      rw [List.length_append, List.length_replicate]
      omega
    have hvalue : Numeral.value ('0' :: (List.replicate zeros '0' ++ Numeral.digits d.coefficient)) =
        d.coefficient := by
      rw [← List.cons_append, ← List.replicate_succ, Numeral.value_append, Numeral.value_zeros,
        Numeral.value_digits, Nat.zero_mul, Nat.zero_add]
    show ofDecimal negative
      (Numeral.value ('0' :: (List.replicate zeros '0' ++ Numeral.digits d.coefficient)))
      (0 - (List.replicate zeros '0' ++ Numeral.digits d.coefficient).length) = _
    rw [hexponent, hvalue]

/-- An integer has zeros between its digits and the point, and one more behind it. -/
theorem spells_integer (negative : Bool) {zeros : Nat} (hzeros : d.exponent = zeros)
    (hpoint : (Numeral.digits d.coefficient).length + zeros ≤ 16) (hpos : 0 < d.coefficient) :
    d.Spells
      { negative, whole := Numeral.digits d.coefficient ++ List.replicate zeros '0',
        fraction := some ['0'] } := by
  have hne := Numeral.digits_ne_nil d.coefficient
  have hlength : 0 < (Numeral.digits d.coefficient).length := List.length_pos_iff.2 hne
  have hdigits : ∀ c ∈ Numeral.digits d.coefficient, isDigit c = true :=
    Numeral.isDigit_of_mem_digits
  have hhead := Numeral.head?_digits_ne_zero hpos
  refine ⟨⟨.inr ⟨List.append_ne_nil_of_left_ne_nil hne _, ?_, ?_⟩, ?_⟩, rfl, ?_, ?_⟩
  · intro c hc
    rcases List.mem_append.1 hc with hc | hc
    · exact hdigits c hc
    · rw [List.eq_of_mem_replicate hc]
      decide
  · rwa [List.head?_append, Option.or_of_isSome (by simpa using hne)]
  · rintro _ ⟨⟩
    exact ⟨List.cons_ne_nil _ _, List.forall_mem_singleton.2 (by decide)⟩
  · unfold layout
    simp only [hzeros]
    generalize Numeral.digits d.coefficient = ds at hpoint hlength ⊢
    have hcount : ((zeros : Int) + ds.length).toNat - ds.length = zeros := by omega
    rw [if_pos (by omega), if_neg (by omega), if_pos (by omega), hcount]
    rfl
  · have hvalue : Numeral.value (Numeral.digits d.coefficient ++ List.replicate zeros '0' ++ ['0']) =
        d.coefficient * 10 ^ (zeros + 1) := by
      rw [List.append_assoc, ← List.replicate_succ', Numeral.value_append, Numeral.value_zeros,
        Numeral.value_digits, List.length_replicate, Nat.add_zero]
    have hexponent : (0 : Int) - (1 : Nat) + (zeros + 1 : Nat) = d.exponent := by omega
    show ofDecimal negative (Numeral.value (_ ++ ['0'])) (0 - (1 : Nat)) = _
    rw [hvalue, ofDecimal_mul_pow, hexponent]

/-- The point is between the digits. -/
theorem spells_between (negative : Bool) {front behind : List Char} (hfront : front ≠ [])
    (hbehind : behind ≠ []) (hds : Numeral.digits d.coefficient = front ++ behind)
    (hexponent : d.exponent = -behind.length) (hlength : front.length ≤ 16)
    (hpos : 0 < d.coefficient) :
    d.Spells { negative, whole := front, fraction := some behind } := by
  have hdigits : ∀ c ∈ front ++ behind, isDigit c = true :=
    hds ▸ Numeral.isDigit_of_mem_digits
  have hhead := Numeral.head?_digits_ne_zero hpos
  have hvalue := Numeral.value_digits d.coefficient
  refine ⟨⟨.inr ⟨hfront, ?_, ?_⟩, ?_⟩, rfl, ?_, ?_⟩
  · exact fun c hc => hdigits c (List.mem_append_left _ hc)
  · rwa [hds, List.head?_append, Option.or_of_isSome (by simpa using hfront)] at hhead
  · rintro _ ⟨⟩
    exact ⟨hbehind, fun c hc => hdigits c (List.mem_append_right _ hc)⟩
  · have hfrontpos : 0 < front.length := List.length_pos_iff.2 hfront
    have hbehindpos : 0 < behind.length := List.length_pos_iff.2 hbehind
    have hpoint : d.exponent + (front ++ behind).length = front.length := by
      rw [List.length_append]
      omega
    have hmore : ¬ (front ++ behind).length ≤ front.length := by
      rw [List.length_append]
      omega
    unfold layout
    simp only [hds, hpoint]
    rw [if_pos (by omega), if_neg (by omega), Int.toNat_natCast, if_neg hmore,
      List.take_left, List.drop_left]
    show _ ++ (_ ++ (_ ++ [])) = _
    rw [List.append_nil]
    rfl
  · show ofDecimal negative (Numeral.value (front ++ behind)) (0 - behind.length) = _
    rw [← hds, hvalue, Int.zero_sub, hexponent]

/-- Numbers that are very small or very large have an exponent behind the digits. -/
theorem spells_scientific (negative : Bool) {c : Char} {behind : List Char}
    (hds : Numeral.digits d.coefficient = c :: behind)
    (hfar : ¬ (-4 < d.exponent + (behind.length + 1 : Nat) ∧
      d.exponent + (behind.length + 1 : Nat) ≤ 16))
    (hpos : 0 < d.coefficient) :
    d.Spells
      { negative, whole := [c], fraction := if behind = [] then none else some behind,
        exponent := some (d.exponent + behind.length) } := by
  have hdigits : ∀ c' ∈ c :: behind, isDigit c' = true := hds ▸ Numeral.isDigit_of_mem_digits
  have hhead := Numeral.head?_digits_ne_zero hpos
  have hvalue := Numeral.value_digits d.coefficient
  refine ⟨⟨.inr ⟨List.cons_ne_nil _ _, ?_, ?_⟩, ?_⟩, ?_, ?_, ?_⟩
  · rintro c' hc'
    exact hdigits c' (List.mem_cons.2 (.inl (List.mem_singleton.1 hc')))
  · rwa [hds] at hhead
  · intro ds hfraction
    by_cases hnil : behind = []
    · rw [if_pos hnil] at hfraction
      cases hfraction
    · rw [if_neg hnil] at hfraction
      cases hfraction
      exact ⟨hnil, fun c' hc' => hdigits c' (List.mem_cons_of_mem _ hc')⟩
  · exact Bool.and_false _
  · have hpoint : d.exponent + ((behind.length + 1 : Nat) : Int) - 1 = d.exponent + behind.length := by
      omega
    unfold layout
    simp only [hds, List.length_cons]
    rw [if_neg hfar, hpoint]
    cases behind with
    | nil => rfl
    | cons c' behind => rfl
  · cases behind with
    | nil =>
      show ofDecimal negative (Numeral.value [c]) (d.exponent + 0 - 0) = _
      rw [← hds, hvalue, Int.add_zero, Int.sub_zero]
    | cons c' behind =>
      show ofDecimal negative (Numeral.value (c :: c' :: behind))
        (d.exponent + (c' :: behind).length - (c' :: behind).length) = _
      rw [← hds, hvalue, Int.add_sub_cancel]

theorem exists_spells (negative : Bool) (hpos : 0 < d.coefficient) :
    ∃ p : Parts, d.Spells p ∧ p.negative = negative := by
  have hlength : 0 < (Numeral.digits d.coefficient).length :=
    List.length_pos_iff.2 (Numeral.digits_ne_nil _)
  by_cases hfar : -4 < d.exponent + (Numeral.digits d.coefficient).length ∧
      d.exponent + (Numeral.digits d.coefficient).length ≤ 16
  · by_cases hsmall : d.exponent + (Numeral.digits d.coefficient).length ≤ 0
    · have hpoint : d.exponent + (Numeral.digits d.coefficient).length =
          -((-(d.exponent + (Numeral.digits d.coefficient).length)).toNat : Int) := by omega
      exact ⟨_, spells_small negative (by omega) hpoint, rfl⟩
    · by_cases hinteger : 0 ≤ d.exponent
      · exact ⟨_, spells_integer negative (Int.toNat_of_nonneg hinteger).symm (by omega) hpos, rfl⟩
      · obtain ⟨k, hk⟩ : ∃ k : Nat, d.exponent + (Numeral.digits d.coefficient).length = k :=
          Int.eq_ofNat_of_zero_le (by omega)
        have hsplit := List.take_append_drop k (Numeral.digits d.coefficient)
        have htake : ((Numeral.digits d.coefficient).take k).length = k := by
          rw [List.length_take]
          omega
        have hdrop : d.exponent = -(((Numeral.digits d.coefficient).drop k).length : Int) := by
          rw [List.length_drop]
          omega
        refine ⟨_, spells_between negative ?_ ?_ hsplit.symm hdrop (by omega) hpos, rfl⟩
        · apply List.ne_nil_of_length_pos
          omega
        · apply List.ne_nil_of_length_pos
          omega
  · obtain ⟨c, behind, hds⟩ := List.exists_cons_of_ne_nil (Numeral.digits_ne_nil d.coefficient)
    rw [hds, List.length_cons] at hfar
    exact ⟨_, spells_scientific negative hds hfar hpos, rfl⟩

end Decimal

/-- The text of a finite number is the notation of parts that are rounded to the number. -/
theorem exists_parts_finiteText (negative : Bool) {grains : Nat} (hrep : Representable grains) :
    ∃ p : Number.Parts, p.WellFormed ∧ p.isInt = false ∧ p.text = finiteText negative grains ∧
      p.toBinary64 = .finite negative grains hrep := by
  rcases Nat.eq_zero_or_pos grains with rfl | hgrains
  · refine ⟨{ negative, whole := ['0'], fraction := some ['0'] }, ⟨.inl rfl, ?_⟩, rfl, rfl, ?_⟩
    · rintro _ ⟨⟩
      exact ⟨List.cons_ne_nil _ _, List.forall_mem_singleton.2 (by decide)⟩
    · show ofDecimal negative 0 (0 - 1) = _
      unfold ofDecimal
      rw [if_pos rfl]
      rfl
  · have hdenotes := Decimal.denotes_shortest hgrains hrep
    obtain ⟨p, hspells, rfl⟩ := Decimal.exists_spells negative hdenotes.pos
    refine ⟨p, hspells.wellFormed, hspells.isInt, ?_, ?_⟩
    · rw [hspells.text, finiteText, if_neg hgrains.ne']
    · rw [hspells.round, hdenotes.round, ofGrains, dif_pos hrep]

end Gamebook.Binary64

namespace Gamebook.Number

/-- A number that is finite and not too long is written in the notation of parts that denote it. -/
theorem exists_parts_text {n : Number} (hfinite : ∀ x, n = .float x → x.isFinite = true)
    (hlong : n.isTooLong = false) :
    ∃ p : Parts, p.WellFormed ∧ p.text = n.text ∧ p.toNumber = .ok n := by
  cases n with
  | int n =>
    exact ⟨.ofInteger n, Parts.wellFormed_ofInteger n, Parts.text_ofInteger n,
      Parts.toNumber_ofInteger hlong⟩
  | float x =>
    have hx := hfinite x rfl
    cases x with
    | finite negative grains hrep =>
      obtain ⟨p, hwell, hint, htext, hround⟩ := Binary64.exists_parts_finiteText negative hrep
      refine ⟨p, hwell, htext, ?_⟩
      unfold Parts.toNumber
      rw [hint, hround]
      rfl
    | infinite negative => cases hx
    | undefined origin => cases hx

end Gamebook.Number
