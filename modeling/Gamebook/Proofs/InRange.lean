import Gamebook.Proofs.Fallible
import Gamebook.Proofs.Shortest
import Gamebook.Condition
import Gamebook.Text.Blank

/-!
# Numbers in range

A finite number has few digits in front of its point, so that it is always written
(`isTooLong_of_isFinite`), and what is written is never refused for its length, wherever a
shorthand reads it (`toNumber_ofDigits?`).

Numbers that agree stand in the same place (`place?_eq_of_agrees`), so no comparison can tell them
apart (`holds_eq_of_agrees`).
-/

namespace Gamebook.Number

open Numeral (isDigit)

/-! ## Length -/

theorem natAbs_lt_of_ofInt? {n : Int} {x : Binary64} (h : Binary64.ofInt? n = some x) :
    n.natAbs < 2 ^ 1025 := by
  by_contra hge
  have hoverflow := Binary64.ofQuotient_overflow (decide (n < 0)) (Nat.le_of_not_lt hge)
  rw [Binary64.ofInt?, hoverflow] at h
  have hnone : (Binary64.infinite (decide (n < 0))).finite? = none := rfl
  rw [hnone] at h
  cases h

theorem length_digits_le_of_lt {n : Nat} (h : n < 2 ^ 1025) :
    (Numeral.digits n).length ≤ Numeral.maxDigits := by
  have hten : n < 10 ^ 400 := Nat.lt_of_lt_of_le h (Binary64.two_pow_le_ten_pow (by decide))
  exact Nat.le_trans (Numeral.length_digits_le (by decide) hten) (by decide)

theorem natAbs_lt_of_isFinite {n : Int} {b : Bool} (h : (Number.int n).isFinite = .ok b) :
    n.natAbs < 2 ^ 1025 := by
  cases hx : Binary64.ofInt? n with
  | some x => exact natAbs_lt_of_ofInt? hx
  | none =>
    rw [isFinite, toBinary64, hx] at h
    cases h

/-- An integer so far out of range has no place among the floating point numbers. -/
theorem isFinite_of_le {n : Int} (h : 2 ^ 1025 ≤ n.natAbs) :
    (Number.int n).isFinite = .error .tooLarge := by
  cases hx : Binary64.ofInt? n with
  | some x => exact absurd (natAbs_lt_of_ofInt? hx) (Nat.not_lt.2 h)
  | none =>
    rw [isFinite, toBinary64, hx]
    rfl

/-- An integer out of range has more than 308 digits. -/
theorem le_natAbs_of_isFinite {n : Int} {e : RangeError} (h : (Number.int n).isFinite = .error e) :
    10 ^ 308 ≤ n.natAbs := by
  by_contra hlt
  obtain ⟨g, hrep, hn⟩ := Binary64.ofQuotient_in_range (decide (n < 0)) (Nat.lt_of_not_le hlt)
  rw [isFinite, toBinary64, Binary64.ofInt?, hn] at h
  cases h

/-- A number in range is written. -/
theorem isTooLong_of_isFinite {n : Number} (h : n.isFinite = .ok true) : n.isTooLong = false := by
  cases n with
  | int n =>
    have hlength := length_digits_le_of_lt (natAbs_lt_of_isFinite h)
    exact decide_eq_false (Nat.not_lt.2 hlength)
  | float x => rfl

/-- A power of ten with more digits than are written. -/
theorem isTooLong_ten_pow {k : Nat} (h : Numeral.maxDigits ≤ k) :
    (Number.int (10 ^ k)).isTooLong = true := by
  refine decide_eq_true (Numeral.lt_length_digits ?_)
  rw [Int.natAbs_pow]
  exact Nat.pow_le_pow_right (by decide) h

/-- A power of ten that is out of range. -/
theorem isFinite_ten_pow {k : Nat} (h : 400 ≤ k) :
    (Number.int (10 ^ k)).isFinite = .error .tooLarge := by
  apply isFinite_of_le
  rw [Int.natAbs_pow]
  exact Nat.le_trans (Binary64.two_pow_le_ten_pow (by decide)) (Nat.pow_le_pow_right (by decide) h)

theorem natAbs_signedGrains (negative : Bool) (grains : Nat) :
    (Binary64.signedGrains negative grains).natAbs = grains := by
  unfold Binary64.signedGrains
  split
  · rw [Int.natAbs_neg, Int.natAbs_natCast]
  · rw [Int.natAbs_natCast]

theorem natAbs_lt_of_toInt? {x : Binary64} {n : Int} (h : x.toInt? = some n) :
    n.natAbs < 2 ^ 1025 := by
  cases x with
  | infinite negative => cases h
  | undefined origin => cases h
  | finite negative grains hrep =>
    rw [Binary64.toInt?] at h
    obtain ⟨-, hn⟩ := Option.ite_none_right_eq_some.1 h
    obtain rfl := Option.some.inj hn
    have hlimit := Binary64.two_mul_limit
    have hlt : grains < 2 ^ 1025 * Binary64.one := by
      rw [← hlimit]
      exact Nat.lt_of_lt_of_le hrep.2 (Nat.le_mul_of_pos_left _ (by decide))
    rw [natAbs_signedGrains]
    exact Nat.div_lt_of_lt_mul (Nat.mul_comm _ _ ▸ hlt)

theorem isFinite_float {x : Binary64} (h : (Number.float x).isFinite = .ok true) :
    x.isFinite = true := Except.ok.inj h

/-! ## Plain texts -/

/-- What is read from a text is never refused for its length: it is no run of digits, or a short
one. -/
def Fits (cs : List Char) : Prop :=
  (∀ c ∈ cs, isDigit c = true) → cs.length ≤ Numeral.maxDigits

/-- The plain text of a finite number is a notation with few digits if it denotes an integer. -/
theorem exists_parts_plainText {n : Number} (h : n.isFinite = .ok true) :
    ∃ p : Parts, p.WellFormed ∧ p.text = n.plainText ∧
      (p.isInt = true → p.whole.length ≤ Numeral.maxDigits) := by
  have integer : ∀ k : Int, k.natAbs < 2 ^ 1025 → ∃ p : Parts, p.WellFormed ∧
      p.text = Numeral.ofInt k ∧ (p.isInt = true → p.whole.length ≤ Numeral.maxDigits) :=
    fun k hk => ⟨.ofInteger k, Parts.wellFormed_ofInteger k, Parts.text_ofInteger k,
      fun _ => length_digits_le_of_lt hk⟩
  cases n with
  | int k => exact integer k (natAbs_lt_of_isFinite h)
  | float x =>
    cases x with
    | infinite negative => cases isFinite_float h
    | undefined origin => cases isFinite_float h
    | finite negative grains hrep =>
      unfold plainText
      simp only
      cases hint : (Binary64.finite negative grains hrep).toInt? with
      | none =>
        obtain ⟨p, hwell, hint, htext, -⟩ := Binary64.exists_parts_finiteText negative hrep
        refine ⟨p, hwell, htext, fun h => ?_⟩
        rw [hint] at h
        cases h
      | some k => exact integer k (natAbs_lt_of_toInt? hint)

theorem fits_of_mem {cs : List Char} {c : Char} (hc : c ∈ cs) (h : isDigit c = false) : Fits cs := by
  intro hdigits
  rw [hdigits c hc] at h
  cases h

theorem fits_plainText {n : Number} (h : n.isFinite = .ok true) :
    Fits n.plainText ∧ Fits (cutMinus n.plainText).2 := by
  obtain ⟨p, hwell, htext, hwhole⟩ := exists_parts_plainText h
  have hcut : cutMinus p.text =
      (p.negative, p.whole ++ (fractionText p.fraction ++ exponentText p.exponent)) :=
    cutMinus_signText p.negative (hwell.whole.head?_ne_minus _)
  have hbody : Fits (p.whole ++ (fractionText p.fraction ++ exponentText p.exponent)) := by
    obtain ⟨negative, whole, fraction, exponent⟩ := p
    cases fraction with
    | some ds => exact fits_of_mem (c := '.') (by simp [fractionText]) (by decide)
    | none =>
      cases exponent with
      | some e => exact fits_of_mem (c := 'e') (by simp [exponentText]) (by decide)
      | none =>
        intro _
        show (whole ++ ([] ++ [])).length ≤ _
        rw [List.append_nil, List.append_nil]
        exact hwhole rfl
  rw [← htext, hcut]
  refine ⟨?_, hbody⟩
  cases hnegative : p.negative with
  | false =>
    unfold Parts.text
    rw [hnegative]
    exact hbody
  | true =>
    refine fits_of_mem (c := '-') ?_ (by decide)
    unfold Parts.text
    rw [hnegative]
    exact List.mem_cons_self

/-- The characters of the notation of a number. -/
def IsNumeralChar (c : Char) : Prop :=
  isDigit c = true ∨ c ∈ ['-', '+', '.', 'e']

theorem isBlank_of_isNumeralChar {c : Char} (h : IsNumeralChar c) : Text.isBlank c = false := by
  rcases h with hdigit | hmem
  · simp only [isDigit, Bool.and_eq_true, decide_eq_true_eq] at hdigit
    have hlower : '0'.toNat ≤ c.toNat := hdigit.1
    have hupper : c.toNat ≤ '9'.toNat := hdigit.2
    have hcodes : ∀ n ∈ Text.blankCodes, n < '0'.toNat ∨ '9'.toNat < n := by decide
    refine Bool.eq_false_iff.2 fun hblank => ?_
    have hcode := hcodes _ (List.contains_iff_mem.1 hblank)
    omega
  · simp only [List.mem_cons, List.not_mem_nil, or_false] at hmem
    rcases hmem with rfl | rfl | rfl | rfl <;> decide

theorem isNumeralChar_of_mem_exponentText {e : Int} {c : Char}
    (h : c ∈ Binary64.Decimal.exponentText e) : IsNumeralChar c := by
  unfold Binary64.Decimal.exponentText at h
  rcases List.mem_cons.1 h with rfl | h
  · split
    · exact .inr (by decide)
    · exact .inr (by decide)
  · left
    split at h
    · rcases List.mem_cons.1 h with rfl | h
      · decide
      · exact Numeral.isDigit_of_mem_digits c h
    · exact Numeral.isDigit_of_mem_digits c h

theorem isNumeralChar_of_mem_text {p : Parts} (h : p.WellFormed) {c : Char} (hc : c ∈ p.text) :
    IsNumeralChar c := by
  unfold Parts.text at hc
  simp only [List.mem_append] at hc
  rcases hc with hc | hc | hc | hc
  · cases hnegative : p.negative with
    | false =>
      rw [hnegative] at hc
      cases hc
    | true =>
      rw [hnegative] at hc
      rw [List.mem_singleton.1 hc]
      exact .inr (by decide)
  · rcases h.whole with hwhole | ⟨-, hdigits, -⟩
    · rw [hwhole] at hc
      rw [List.mem_singleton.1 hc]
      exact .inl (by decide)
    · exact .inl (hdigits c hc)
  · cases hfraction : p.fraction with
    | none =>
      rw [hfraction] at hc
      cases hc
    | some ds =>
      rw [hfraction] at hc
      rcases List.mem_cons.1 hc with rfl | hc
      · exact .inr (by decide)
      · exact .inl ((h.fraction ds hfraction).2 c hc)
  · cases hexponent : p.exponent with
    | none =>
      rw [hexponent] at hc
      cases hc
    | some e =>
      rw [hexponent] at hc
      rcases List.mem_cons.1 hc with rfl | hc
      · exact .inr (by decide)
      · exact isNumeralChar_of_mem_exponentText hc

theorem isNumeralChar_of_mem_plainText {n : Number} (h : n.isFinite = .ok true) {c : Char}
    (hc : c ∈ n.plainText) : IsNumeralChar c := by
  obtain ⟨p, hwell, htext, -⟩ := exists_parts_plainText h
  exact isNumeralChar_of_mem_text hwell (htext ▸ hc)

/-! ## Reading plain texts -/

/-- Digits with an optional fraction denote a number, unless they are a long run of digits. -/
theorem toNumber_ofDigits? {negative : Bool} {cs : List Char} {p : Parts}
    (h : Parts.ofDigits? negative cs = some p) (hfits : Fits cs) : ∃ n, p.toNumber = .ok n := by
  unfold Parts.ofDigits? at h
  split at h
  · cases h
  · next whole hne hspan =>
    obtain rfl := Option.some.inj h
    have hwhole : cs.takeWhile isDigit = whole := congrArg Prod.fst hspan
    have hrest : cs.dropWhile isDigit = [] := congrArg Prod.snd hspan
    have hcs : cs = whole := by
      have happend := List.takeWhile_append_dropWhile (p := isDigit) (l := cs)
      rw [hwhole, hrest, List.append_nil] at happend
      exact happend.symm
    have hlength : ¬ Numeral.maxDigits < whole.length := by
      refine Nat.not_lt.2 (hcs ▸ hfits ?_)
      exact List.dropWhile_eq_nil_iff.1 hrest
    refine ⟨.int (signed negative (Numeral.value whole)), ?_⟩
    show (Parts.toInt { negative, whole }).map Number.int = _
    unfold Parts.toInt
    rw [if_neg hlength]
    rfl
  · split at h
    · next fraction hcut =>
      obtain rfl := Option.some.inj h
      exact ⟨_, rfl⟩
    · cases h

theorem isDigit_of_spanDigits {cs ds : List Char} (h : Numeral.spanDigits cs = (ds, [])) :
    ∀ c ∈ cs, isDigit c = true :=
  List.dropWhile_eq_nil_iff.1 (congrArg Prod.snd h)

/-- What is read as digits with a fraction consists of digits and a point. -/
theorem of_mem_of_ofDigits? {negative : Bool} {cs : List Char} {p : Parts}
    (h : Parts.ofDigits? negative cs = some p) : ∀ c ∈ cs, isDigit c = true ∨ c = '.' := by
  unfold Parts.ofDigits? at h
  split at h
  · cases h
  · next hspan => exact fun c hc => .inl (isDigit_of_spanDigits hspan c hc)
  · next whole rest _ _ hspan =>
    split at h
    · next fraction hcut =>
      have hrest : ∀ c ∈ rest, isDigit c = true ∨ c = '.' := by
        unfold cutFraction at hcut
        split at hcut
        · split at hcut
          · cases hcut
          · next ds _ _ hds =>
            cases hcut
            intro c hc
            rcases List.mem_cons.1 hc with rfl | hc
            · exact .inr rfl
            · exact .inl (isDigit_of_spanDigits hds c hc)
        · cases hcut
      intro c hc
      rw [← List.takeWhile_append_dropWhile (p := isDigit) (l := cs)] at hc
      rcases List.mem_append.1 hc with hc | hc
      · exact .inl (List.mem_takeWhile_imp hc)
      · have hdrop : cs.dropWhile isDigit = rest := congrArg Prod.snd hspan
        exact hrest c (hdrop ▸ hc)
    · cases h

theorem of_mem_of_ofPlain? {cs : List Char} {p : Parts} (h : Parts.ofPlain? cs = some p) :
    ∀ c ∈ cs, isDigit c = true ∨ c = '.' ∨ c = '-' := by
  unfold Parts.ofPlain? at h
  intro c hc
  have hbody : ∀ c ∈ (cutMinus cs).2, isDigit c = true ∨ c = '.' := of_mem_of_ofDigits? h
  have hcut : c = '-' ∨ c ∈ (cutMinus cs).2 := by
    unfold cutMinus
    split
    · exact List.mem_cons.1 hc
    · exact .inr hc
  rcases hcut with rfl | hcut
  · exact .inr (.inr rfl)
  · rcases hbody c hcut with hdigit | hpoint
    · exact .inl hdigit
    · exact .inr (.inl hpoint)

theorem toNumber_ofPlain? {n : Number} (h : n.isFinite = .ok true) {p : Parts}
    (hp : Parts.ofPlain? n.plainText = some p) : ∃ m, p.toNumber = .ok m :=
  toNumber_ofDigits? hp (fits_plainText h).2

/-! ## Agreement -/

theorem place?_eq_of_agrees {m n : Number} (h : m.agrees n = true) : m.place? = n.place? := by
  unfold agrees at h
  split at h
  · rfl
  · unfold eq at h
    split at h
    · next p q hp hq => rw [hp, hq, eq_of_beq h]
    · cases h

theorem holds_eq_of_agrees (relation : Relation) (amount : Number) {m n : Number}
    (h : m.agrees n = true) : relation.holds amount m = relation.holds amount n := by
  have hplace := place?_eq_of_agrees h
  cases relation <;> simp only [Relation.holds, le, lt, eq, hplace]

theorem agrees_self {n : Number} (h : n.place? ≠ none) : n.agrees n = true := by
  unfold agrees
  split
  · rfl
  · unfold eq
    cases hplace : n.place? with
    | none => exact absurd hplace h
    | some p => exact beq_self_eq_true p

theorem place?_ne_none_of_isFinite {n : Number} (h : n.isFinite = .ok true) : n.place? ≠ none := by
  cases n with
  | int n => exact Option.some_ne_none _
  | float x =>
    cases x with
    | finite negative grains hrep => exact Option.some_ne_none _
    | infinite negative => cases isFinite_float h
    | undefined origin => cases isFinite_float h

end Gamebook.Number
