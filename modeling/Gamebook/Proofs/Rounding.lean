import Gamebook.Number
import Mathlib.Algebra.Order.Ring.Nat
import Mathlib.Tactic.Ring

/-!
# Rounding

A quotient is rounded by its value alone: common factors of numerator and denominator do not matter
(`nearest_mul_mul`), and a magnitude of the format is rounded to itself (`nearest_mul`).

Decimals far out of range are not calculated when they are rounded.  That changes nothing: what is
so large would be rounded to an infinity and what is so small to zero (`ofDecimal_eq`).  So a decimal
too is rounded by its value alone (`ofDecimal_mul_pow`).

What is rounded clearly below the limit stays a magnitude of the format (`representable_nearest`), as
every decimal with at most 308 digits in front of its point is (`isFinite_ofDecimal`).
-/

namespace Gamebook.Binary64

/-! ## Quotients -/

theorem roundHalfEven_mul_mul (num den : Nat) {k : Nat} (hk : 0 < k) :
    roundHalfEven (num * k) (den * k) = roundHalfEven num den := by
  unfold roundHalfEven
  have hlt : ∀ a b : Nat, a * k < b * k ↔ a < b := fun a b => Nat.mul_lt_mul_right hk
  simp only [Nat.mul_div_mul_right _ _ hk, Nat.mul_mod_mul_right, ← Nat.mul_assoc, hlt]

theorem roundHalfEven_mul (q : Nat) {den : Nat} (h : 0 < den) : roundHalfEven (q * den) den = q := by
  unfold roundHalfEven
  simp only [Nat.mul_mod_left, Nat.mul_zero, h, ↓reduceIte, Nat.mul_div_cancel _ h]

theorem roundHalfEven_eq_zero {num den : Nat} (h : 2 * num < den) : roundHalfEven num den = 0 := by
  unfold roundHalfEven
  have hlt : num < den := by omega
  simp only [Nat.mod_eq_of_lt hlt, h, ↓reduceIte, Nat.div_eq_of_lt hlt]

theorem div_le_roundHalfEven (num den : Nat) : num / den ≤ roundHalfEven num den := by
  unfold roundHalfEven
  dsimp only
  split
  · exact Nat.le_refl _
  · split
    · exact Nat.le_succ _
    · split <;> omega

theorem roundHalfEven_le (num den : Nat) : roundHalfEven num den ≤ num / den + 1 := by
  unfold roundHalfEven
  dsimp only
  split
  · exact Nat.le_succ _
  · split
    · exact Nat.le_refl _
    · split <;> omega

theorem nearest_mul_mul (num den : Nat) {k : Nat} (hk : 0 < k) :
    nearest (num * k) (den * k) = nearest num den := by
  unfold nearest
  dsimp only
  rw [Nat.mul_div_mul_right _ _ hk, Nat.mul_right_comm, roundHalfEven_mul_mul _ _ hk]

/-- A magnitude of the format is the nearest to itself. -/
theorem nearest_mul {g den : Nat} (hden : 0 < den) (hg : g % Nat.pow 2 (spacing g) = 0) :
    nearest (g * den) den = g := by
  unfold nearest
  dsimp only
  rw [Nat.mul_div_cancel _ hden]
  obtain ⟨q, hq⟩ := Nat.dvd_of_mod_eq_zero hg
  generalize hu : Nat.pow 2 (spacing g) = unit at hq ⊢
  have hunit : 0 < unit := hu ▸ Nat.pow_pos (by decide)
  have hnum : g * den = q * (den * unit) := by
    rw [hq]
    ring
  rw [hnum, roundHalfEven_mul q (Nat.mul_pos hden hunit), hq, Nat.mul_comm]

theorem nearest_eq_zero {num den : Nat} (h : 2 * num < den) : nearest num den = 0 := by
  unfold nearest
  have hunit : 0 < Nat.pow 2 (spacing (num / den)) := Nat.pow_pos (by decide)
  have hlt : 2 * num < den * Nat.pow 2 (spacing (num / den)) :=
    Nat.lt_of_lt_of_le h (Nat.le_mul_of_pos_right den hunit)
  dsimp only
  rw [roundHalfEven_eq_zero hlt, Nat.zero_mul]

/-- Rounding takes away at most half of a number. -/
theorem le_two_mul_nearest (n : Nat) : n ≤ 2 * nearest n 1 := by
  rcases Nat.eq_zero_or_pos n with rfl | hn
  · exact Nat.zero_le _
  have hunit : Nat.pow 2 (spacing n) ≤ n :=
    Nat.le_trans (Nat.pow_le_pow_right (by decide) (Nat.sub_le _ _)) (Nat.log2_self_le (by omega))
  have hpos : 0 < Nat.pow 2 (spacing n) := Nat.pow_pos (by decide)
  unfold nearest
  dsimp only
  rw [Nat.div_one, Nat.one_mul]
  generalize Nat.pow 2 (spacing n) = unit at hunit hpos ⊢
  have hround := Nat.mul_le_mul_right unit (div_le_roundHalfEven n unit)
  -- the whole part of the quotient is at least one, so it outweighs the remainder
  have hwhole := Nat.mul_le_mul_right unit ((Nat.one_le_div_iff hpos).2 hunit)
  have hmod := Nat.mod_lt n hpos
  have hdiv := Nat.div_add_mod n unit
  rw [Nat.mul_comm unit] at hdiv
  omega

theorem lt_two_pow_spacing (n : Nat) : n < 2 ^ (53 + spacing n) := by
  have hlog : n < 2 ^ (n.log2 + 1) := Nat.lt_log2_self
  refine Nat.lt_of_lt_of_le hlog (Nat.pow_le_pow_right (by decide) ?_)
  unfold spacing
  omega

/-- At most 53 bits, moved to the left, are a magnitude of the format but for its size. -/
theorem mod_spacing_eq_zero {r s : Nat} (h : r ≤ 2 ^ 53) :
    r * 2 ^ s % Nat.pow 2 (spacing (r * 2 ^ s)) = 0 := by
  apply Nat.mod_eq_zero_of_dvd
  rcases Nat.eq_zero_or_pos r with rfl | hr
  · rw [Nat.zero_mul]
    exact Nat.dvd_zero _
  rcases Nat.lt_or_eq_of_le h with hlt | rfl
  · have hlog : (r * 2 ^ s).log2 < 53 + s := by
      rw [Nat.log2_lt (Nat.ne_of_gt (Nat.mul_pos hr (Nat.pow_pos (by decide)))), Nat.pow_add]
      exact Nat.mul_lt_mul_of_pos_right hlt (Nat.pow_pos (by decide))
    have hspacing : spacing (r * 2 ^ s) ≤ s := by
      unfold spacing
      omega
    exact Nat.dvd_trans (Nat.pow_dvd_pow 2 hspacing) (Nat.dvd_mul_left _ _)
  · have hspacing : spacing (2 ^ 53 * 2 ^ s) ≤ 53 + s := by
      unfold spacing
      rw [← Nat.pow_add, Nat.log2_two_pow]
      omega
    rw [← Nat.pow_add] at hspacing ⊢
    exact Nat.pow_dvd_pow 2 hspacing

/-- What is rounded below the limit is rounded to a magnitude of the format. -/
theorem representable_nearest {num den : Nat}
    (h : num / den + 2 ^ spacing (num / den) < limit) : Representable (nearest num den) := by
  unfold nearest
  simp only [Nat.pow_eq]
  have hpow : 0 < 2 ^ spacing (num / den) := Nat.pow_pos (by decide)
  have hround := roundHalfEven_le num (den * 2 ^ spacing (num / den))
  rw [← Nat.div_div_eq_div_mul] at hround
  have hbits : num / den / 2 ^ spacing (num / den) < 2 ^ 53 := by
    apply Nat.div_lt_of_lt_mul
    rw [Nat.mul_comm, ← Nat.pow_add]
    exact lt_two_pow_spacing _
  have hdiv := Nat.div_mul_le_self (num / den) (2 ^ spacing (num / den))
  generalize spacing (num / den) = s at *
  generalize num / den = q at *
  generalize roundHalfEven num (den * 2 ^ s) = r at *
  refine ⟨mod_spacing_eq_zero (by omega), Nat.lt_of_le_of_lt ?_ h⟩
  calc r * 2 ^ s ≤ (q / 2 ^ s + 1) * 2 ^ s := Nat.mul_le_mul_right _ hround
    _ = q / 2 ^ s * 2 ^ s + 2 ^ s := Nat.succ_mul _ _
    _ ≤ q + 2 ^ s := Nat.add_le_add_right hdiv _

theorem ofQuotient_mul_mul (negative : Bool) (num den : Nat) {k : Nat} (hk : 0 < k) :
    ofQuotient negative (num * k) (den * k) = ofQuotient negative num den := by
  unfold ofQuotient
  rw [nearest_mul_mul _ _ hk]

theorem ofGrains_zero (negative : Bool) : ofGrains negative 0 = zero negative :=
  dif_pos representable_zero

/-! ## Decimals -/

theorem one_pos : 0 < one := Nat.pow_pos (by decide)

theorem one_eq : one = 2 ^ grainBits := by
  rw [one, Nat.pow_eq]

theorem limit_eq : limit = 2 ^ 1024 * one := by
  rw [limit, Nat.pow_eq, Nat.pow_add, one_eq]

theorem two_pow_le_ten_pow {a b : Nat} (h : a ≤ 3 * b) : 2 ^ a ≤ 10 ^ b :=
  calc 2 ^ a ≤ 2 ^ (3 * b) := Nat.pow_le_pow_right (by decide) h
    _ = 8 ^ b := Nat.pow_mul 2 3 b
    _ ≤ 10 ^ b := Nat.pow_le_pow_left (by decide) b

theorem two_mul_limit : 2 * limit = 2 ^ 1025 * one := by
  rw [limit_eq, ← Nat.mul_assoc, ← Nat.pow_succ']

/-- The spacing below the limit. -/
theorem two_pow_spacing_le {n : Nat} (h : n < limit) : 2 ^ spacing n ≤ 2 ^ 971 * one := by
  have hlog : n.log2 < 1024 + grainBits := by
    rcases Nat.eq_zero_or_pos n with rfl | hn
    · rw [Nat.log2_zero]
      exact Nat.lt_of_lt_of_le (by decide) (Nat.le_add_right 1024 grainBits)
    · exact (Nat.log2_lt (Nat.ne_of_gt hn)).2 h
  rw [one_eq, ← Nat.pow_add]
  refine Nat.pow_le_pow_right (by decide) ?_
  unfold spacing
  omega

/-- A quotient below 10³⁰⁸ is in range. -/
theorem representable_of_lt {num den : Nat} (h : num / den < 10 ^ 308 * one) :
    Representable (nearest num den) := by
  have hten : 10 ^ 308 + 2 ^ 971 ≤ 2 ^ 1024 := by decide +kernel
  have hsum : 10 ^ 308 * one + 2 ^ 971 * one ≤ limit := by
    rw [limit_eq, ← Nat.add_mul]
    exact Nat.mul_le_mul_right one hten
  have hspacing := two_pow_spacing_le (n := num / den) (by omega)
  exact representable_nearest (by omega)

/-- An integer of at most 308 digits is in range. -/
theorem ofQuotient_in_range (negative : Bool) {n : Nat} (h : n < 10 ^ 308) :
    ∃ g hrep, ofQuotient negative (n * one) 1 = .finite negative g hrep := by
  have hrep : Representable (nearest (n * one) 1) := by
    refine representable_of_lt ?_
    rw [Nat.div_one]
    exact Nat.mul_lt_mul_of_pos_right h one_pos
  exact ⟨_, hrep, dif_pos hrep⟩

theorem isFinite_ofQuotient (negative : Bool) {num den : Nat} (h : num / den < 10 ^ 308 * one) :
    (ofQuotient negative num den).isFinite = true := by
  unfold ofQuotient ofGrains
  rw [dif_pos (representable_of_lt h)]
  rfl

theorem ofQuotient_overflow (negative : Bool) {n : Nat} (h : 2 ^ 1025 ≤ n) :
    ofQuotient negative (n * one) 1 = .infinite negative := by
  have hnum : 2 * limit ≤ n * one := by
    rw [two_mul_limit]
    exact Nat.mul_le_mul_right _ h
  have hnearest := le_two_mul_nearest (n * one)
  unfold ofQuotient ofGrains
  refine dif_neg fun hrep => ?_
  have hlt := hrep.2
  omega

theorem ofQuotient_underflow (negative : Bool) {c k : Nat} (hk : c.log2 + 1076 ≤ k) :
    ofQuotient negative (c * one) (10 ^ k) = zero negative := by
  unfold ofQuotient
  rw [nearest_eq_zero, ofGrains_zero]
  have hc : c < 2 ^ (c.log2 + 1) := Nat.lt_log2_self
  calc 2 * (c * one) < 2 * (2 ^ (c.log2 + 1) * one) := by
        have := Nat.mul_lt_mul_of_pos_right hc one_pos
        omega
    _ = 2 ^ (c.log2 + 1076) := by
        unfold one grainBits
        simp only [Nat.pow_eq, ← Nat.pow_add, ← Nat.pow_succ']
    _ ≤ 2 ^ k := Nat.pow_le_pow_right (by decide) hk
    _ ≤ 10 ^ k := Nat.pow_le_pow_left (by decide) k

/-- A decimal is rounded by its value, also where the calculation is cut short. -/
theorem ofDecimal_eq (negative : Bool) {c : Nat} (hc : c ≠ 0) (e : Int) :
    ofDecimal negative c e =
      if 0 ≤ e then ofQuotient negative (c * 10 ^ e.toNat * one) 1
      else ofQuotient negative (c * one) (10 ^ (-e).toNat) := by
  have hover : 400 < e → ofQuotient negative (c * 10 ^ e.toNat * one) 1 = .infinite negative := by
    intro he
    have hten : 2 ^ 1025 ≤ 10 ^ e.toNat := two_pow_le_ten_pow (by omega)
    exact ofQuotient_overflow negative
      (Nat.le_trans hten (Nat.le_mul_of_pos_left _ (Nat.pos_of_ne_zero hc)))
  have hunder := ofQuotient_underflow negative (c := c) (k := (-e).toNat)
  unfold ofDecimal
  simp only [Nat.pow_eq]
  generalize one = unit at hover hunder ⊢
  rw [if_neg hc]
  split
  · next h =>
    rw [if_pos (by omega), hover h]
  · split
    · next h =>
      rw [if_neg (by omega), hunder (by omega)]
    · rfl

/-- Zeros at the end of a coefficient may be counted by the exponent instead. -/
theorem ofDecimal_mul_pow (negative : Bool) (c k : Nat) (e : Int) :
    ofDecimal negative (c * 10 ^ k) e = ofDecimal negative c (e + k) := by
  rcases Nat.eq_zero_or_pos c with rfl | hc
  · rw [Nat.zero_mul]
    unfold ofDecimal
    rw [if_pos rfl, if_pos rfl]
  have hpow : ∀ n, 0 < 10 ^ n := fun n => Nat.pow_pos (by decide)
  rw [ofDecimal_eq negative (Nat.mul_pos hc (hpow k)).ne', ofDecimal_eq negative hc.ne']
  generalize one = unit
  by_cases he : 0 ≤ e
  · have hsum : (e + k).toNat = e.toNat + k := by omega
    have hnum : c * 10 ^ k * 10 ^ e.toNat * unit = c * 10 ^ (e.toNat + k) * unit := by
      rw [Nat.pow_add]
      ring
    rw [if_pos he, if_pos (by omega), hsum, hnum]
  · rw [if_neg he]
    by_cases hek : 0 ≤ e + k
    · -- the numerator has more zeros than the denominator
      have hk : k = (e + k).toNat + (-e).toNat := by omega
      have hnum : c * 10 ^ k * unit = c * 10 ^ (e + k).toNat * unit * 10 ^ (-e).toNat := by
        conv_lhs => rw [hk, Nat.pow_add]
        ring
      have hcancel := ofQuotient_mul_mul negative (c * 10 ^ (e + k).toNat * unit) 1 (hpow (-e).toNat)
      rw [Nat.one_mul] at hcancel
      rw [if_pos hek, hnum, hcancel]
    · have hk : (-e).toNat = (-(e + k)).toNat + k := by omega
      have hnum : c * 10 ^ k * unit = c * unit * 10 ^ k := Nat.mul_right_comm _ _ _
      rw [if_neg hek, hk, Nat.pow_add, hnum]
      exact ofQuotient_mul_mul negative _ _ (hpow _)

/-- A decimal with at most 308 digits in front of its point is finite. -/
theorem isFinite_ofDecimal (negative : Bool) {c k : Nat} (h : c < 10 ^ (308 + k)) :
    (ofDecimal negative c (-(k : Int))).isFinite = true := by
  by_cases hc : c = 0
  · rw [hc, ofDecimal, if_pos rfl]
    rfl
  have hquotient : c * one / 10 ^ k < 10 ^ 308 * one := by
    refine Nat.div_lt_of_lt_mul ?_
    rw [← Nat.mul_assoc, ← Nat.pow_add, Nat.add_comm k]
    exact Nat.mul_lt_mul_of_pos_right h one_pos
  rw [ofDecimal_eq negative hc]
  split
  · -- there are no digits behind the point
    obtain rfl : k = 0 := by omega
    have hnum : c * 10 ^ (-((0 : Nat) : Int)).toNat * one = c * one := by
      rw [show (-((0 : Nat) : Int)).toNat = 0 from rfl, Nat.pow_zero, Nat.mul_one]
    rw [hnum]
    exact isFinite_ofQuotient negative hquotient
  · rw [Int.neg_neg, Int.toNat_natCast]
    exact isFinite_ofQuotient negative hquotient

end Gamebook.Binary64
