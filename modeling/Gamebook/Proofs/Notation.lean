import Gamebook.Datum.Reader
import Gamebook.Proofs.Numeral

/-!
# Decimal notation read back

`Parts.text` puts the parts of a number together.  What it writes is cut into the same parts again
by the reader of documents, with what follows the number left over (`cutNumber?_text`).  An integer
is the case without a fraction and an exponent (`toNumber_ofInteger`).
-/

namespace Gamebook.Number

open Numeral (isDigit EndsDigits)
open Binary64 (signText)

/-- A text that does not go on with what could belong to a number in front of it. -/
def EndsNumber (cs : List Char) : Prop :=
  ∀ c ∈ cs.head?, isDigit c = false ∧ c ≠ '.' ∧ c ≠ 'e' ∧ c ≠ 'E'

theorem EndsNumber.endsDigits {cs : List Char} (h : EndsNumber cs) : EndsDigits cs :=
  fun c hc => (h c hc).1

/-! ## Signs -/

theorem cutMinus_signText (negative : Bool) {cs : List Char} (h : cs.head? ≠ some '-') :
    cutMinus (signText negative ++ cs) = (negative, cs) := by
  cases negative with
  | true => rfl
  | false =>
    show cutMinus cs = (false, cs)
    unfold cutMinus
    split
    · exact absurd rfl h
    · rfl

theorem signed_natAbs (n : Int) : signed (decide (n < 0)) n.natAbs = n := by
  unfold signed
  split
  · next h =>
    have hneg : n < 0 := of_decide_eq_true h
    omega
  · next h =>
    have hnonneg : ¬ n < 0 := fun hneg => h (decide_eq_true hneg)
    omega

theorem ofInt_eq (n : Int) :
    Numeral.ofInt n = signText (decide (n < 0)) ++ Numeral.digits n.natAbs := by
  cases n with
  | ofNat n =>
    have h : ¬ Int.ofNat n < 0 := Int.not_lt.2 (Int.natCast_nonneg n)
    rw [decide_eq_false h]
    rfl
  | negSucc n =>
    rw [decide_eq_true (Int.negSucc_lt_zero n)]
    rfl

/-! ## Fractions and exponents -/

/-- The text of a fraction with its point. -/
def fractionText : Option (List Char) → List Char
  | none => []
  | some ds => '.' :: ds

/-- The text of an exponent with its letter. -/
def exponentText : Option Int → List Char
  | none => []
  | some e => 'e' :: Binary64.Decimal.exponentText e

theorem cutFraction_append {ds rest : List Char} (hne : ds ≠ [])
    (hds : ∀ c ∈ ds, isDigit c = true) (hrest : EndsDigits rest) :
    cutFraction ('.' :: (ds ++ rest)) = some (ds, rest) := by
  have hspan := Numeral.spanDigits_append hds hrest
  unfold cutFraction
  simp only
  rw [hspan]
  cases ds with
  | nil => exact absurd rfl hne
  | cons c ds => rfl

theorem cutFraction_eq_none {cs : List Char} (h : cs.head? ≠ some '.') : cutFraction cs = none := by
  unfold cutFraction
  split
  · exact absurd rfl h
  · rfl

theorem cutExponent_eq_none {cs : List Char} (h : ∀ c ∈ cs.head?, c ≠ 'e' ∧ c ≠ 'E') :
    cutExponent cs = none := by
  cases cs with
  | nil => rfl
  | cons c cs =>
    obtain ⟨he, hE⟩ := h c rfl
    unfold cutExponent
    exact if_neg (not_or.2 ⟨he, hE⟩)

theorem cutExponent_exponentText (e : Int) {rest : List Char} (hrest : EndsDigits rest) :
    cutExponent ('e' :: (Binary64.Decimal.exponentText e ++ rest)) = some (e, rest) := by
  unfold Binary64.Decimal.exponentText
  -- one leading zero does not change the value
  obtain ⟨ds, hne, hdigits, hvalue, heq⟩ : ∃ ds : List Char, ds ≠ [] ∧
      (∀ c ∈ ds, isDigit c = true) ∧ Numeral.value ds = e.natAbs ∧
      (if (Numeral.digits e.natAbs).length < 2 then '0' :: Numeral.digits e.natAbs
        else Numeral.digits e.natAbs) = ds := by
    have hdigits : ∀ c ∈ Numeral.digits e.natAbs, isDigit c = true := Numeral.isDigit_of_mem_digits
    split
    · refine ⟨_, List.cons_ne_nil _ _, ?_, ?_, rfl⟩
      · exact List.forall_mem_cons.2 ⟨by decide, hdigits⟩
      · rw [Numeral.value_cons, Numeral.value_digits]
        show 0 * _ + _ = _
        omega
    · exact ⟨_, Numeral.digits_ne_nil _, hdigits, Numeral.value_digits _, rfl⟩
  dsimp only
  rw [heq]
  have hspan := Numeral.spanDigits_append hdigits hrest
  have hsign : cutSign ((if e < 0 then '-' else '+') :: (ds ++ rest)) =
      (decide (e < 0), ds ++ rest) := by
    by_cases h : e < 0 <;> simp only [h, ↓reduceIte, decide_true, decide_false] <;> rfl
  rw [List.cons_append, cutExponent, if_pos (Or.inl rfl), hsign]
  dsimp only
  rw [hspan]
  cases ds with
  | nil => exact absurd rfl hne
  | cons c cs =>
    dsimp only
    rw [hvalue, signed_natAbs]

/-! ## Numbers -/

/-- The digits in front of a point: zero, or digits that do not begin with a zero. -/
def IsWhole (ds : List Char) : Prop :=
  ds = ['0'] ∨ ds ≠ [] ∧ (∀ c ∈ ds, isDigit c = true) ∧ ds.head? ≠ some '0'

theorem isWhole_digits (n : Nat) : IsWhole (Numeral.digits n) := by
  rcases Nat.eq_zero_or_pos n with rfl | hn
  · exact .inl (Numeral.digits_of_lt (by decide))
  · exact .inr ⟨Numeral.digits_ne_nil n, Numeral.isDigit_of_mem_digits,
      Numeral.head?_digits_ne_zero hn⟩

/-- A number does not begin with a minus sign where its sign is cut off. -/
theorem IsWhole.head?_ne_minus {ds : List Char} (h : IsWhole ds) (rest : List Char) :
    (ds ++ rest).head? ≠ some '-' := by
  rcases h with rfl | ⟨hne, hdigits, -⟩
  · rintro ⟨⟩
  · cases ds with
    | nil => exact absurd rfl hne
    | cons c ds =>
      rintro ⟨⟩
      exact absurd (hdigits '-' List.mem_cons_self) (by decide)

theorem cutWhole_append {ds rest : List Char} (h : IsWhole ds) (hrest : EndsDigits rest) :
    Datum.Reader.cutWhole (ds ++ rest) = some (ds, rest) := by
  rcases h with rfl | ⟨hne, hdigits, hhead⟩
  · rfl
  · have hspan := Numeral.spanDigits_append hdigits hrest
    unfold Datum.Reader.cutWhole
    split
    · next heq =>
      cases ds with
      | nil => exact absurd rfl hne
      | cons c ds =>
        obtain ⟨rfl, -⟩ := List.cons.inj heq
        exact absurd rfl hhead
    · rw [hspan]
      cases ds with
      | nil => exact absurd rfl hne
      | cons c ds => rfl

namespace Parts

/-- The notation that has the given parts. -/
def text (p : Parts) : List Char :=
  signText p.negative ++ (p.whole ++ (fractionText p.fraction ++ exponentText p.exponent))

/-- The parts of a notation that documents allow. -/
structure WellFormed (p : Parts) : Prop where
  whole : IsWhole p.whole
  fraction : ∀ ds ∈ p.fraction, ds ≠ [] ∧ ∀ c ∈ ds, isDigit c = true

/-- A notation is cut into its parts again, and what follows it is left over. -/
theorem cutNumber?_text {p : Parts} (h : p.WellFormed) {rest : List Char} (hrest : EndsNumber rest) :
    Datum.Reader.cutNumber? (p.text ++ rest) = some (p, rest) := by
  obtain ⟨negative, whole, fraction, exponent⟩ := p
  obtain ⟨hwhole, hfraction⟩ := h
  have hexponent : EndsDigits (exponentText exponent ++ rest) := by
    cases exponent with
    | none => exact hrest.endsDigits
    | some e =>
      rintro c ⟨⟩
      decide
  have hbehind : EndsDigits (fractionText fraction ++ (exponentText exponent ++ rest)) := by
    cases fraction with
    | none => exact hexponent
    | some ds =>
      rintro c ⟨⟩
      decide
  have hcut : cutExponent (exponentText exponent ++ rest) = exponent.map (·, rest) := by
    cases exponent with
    | none => exact cutExponent_eq_none fun c hc => (hrest c hc).2.2
    | some e => exact cutExponent_exponentText e hrest.endsDigits
  have hpoint : cutFraction (fractionText fraction ++ (exponentText exponent ++ rest)) =
      fraction.map (·, exponentText exponent ++ rest) := by
    cases fraction with
    | none =>
      apply cutFraction_eq_none
      cases exponent with
      | none => exact fun hpoint => (hrest '.' hpoint).2.1 rfl
      | some e =>
        rintro ⟨⟩
    | some ds =>
      obtain ⟨hne, hds⟩ := hfraction ds rfl
      exact cutFraction_append hne hds hexponent
  unfold Datum.Reader.cutNumber? text
  simp only [List.append_assoc]
  rw [cutMinus_signText negative (hwhole.head?_ne_minus _)]
  simp only
  rw [cutWhole_append hwhole hbehind, Option.bind_eq_bind, Option.bind_some]
  simp only
  rw [hpoint]
  cases fraction with
  | some ds =>
    simp only [Option.map_some]
    rw [hcut]
    cases exponent <;> rfl
  | none =>
    simp only [Option.map_none, fractionText, List.nil_append]
    rw [hcut]
    cases exponent <;> rfl

/-- The parts of an integer. -/
def ofInteger (n : Int) : Parts :=
  { negative := decide (n < 0), whole := Numeral.digits n.natAbs }

theorem text_ofInteger (n : Int) : (ofInteger n).text = Numeral.ofInt n := by
  rw [ofInt_eq]
  show _ ++ (_ ++ []) = _
  rw [List.append_nil]
  rfl

theorem wellFormed_ofInteger (n : Int) : (ofInteger n).WellFormed where
  whole := isWhole_digits _
  fraction := by
    rintro ds ⟨⟩

theorem toNumber_ofInteger {n : Int} (h : (Number.int n).isTooLong = false) :
    (ofInteger n).toNumber = .ok (.int n) := by
  have hlength : ¬ Numeral.maxDigits < (Numeral.digits n.natAbs).length := of_decide_eq_false h
  show (ofInteger n).toInt.map Number.int = _
  unfold toInt ofInteger
  rw [if_neg hlength, Numeral.value_digits, signed_natAbs]
  rfl

end Parts

end Gamebook.Number
