import Gamebook.Number.Parts
import Mathlib.Data.List.TakeWhile
import Mathlib.Tactic.Ring

/-!
# Numerals read back

`digits` writes a natural number without leading zeros, and `value` reads any run of digits; the two
are inverse to each other on numbers (`value_digits`).  A run of digits is cut off a text exactly
where it ends (`spanDigits_append`), and so are an exponent and an integer with its sign.
-/

namespace Gamebook.Numeral

/-! ## Single digits -/

theorem isDigit_digitChar {d : Nat} (h : d < 10) : isDigit (digitChar d) = true := by
  revert d
  decide

theorem digitValue_digitChar {d : Nat} (h : d < 10) : digitValue (digitChar d) = d := by
  revert d
  decide

theorem digitValue_lt {c : Char} (h : isDigit c = true) : digitValue c < 10 := by
  simp only [isDigit, Bool.and_eq_true, decide_eq_true_eq] at h
  have hc : c.toNat ≤ '9'.toNat := h.2
  have h9 : '9'.toNat = 57 := rfl
  unfold digitValue
  omega

theorem ne_of_isDigit {c d : Char} (hc : isDigit c = true) (hd : isDigit d = false) : c ≠ d := by
  rintro rfl
  rw [hc] at hd
  cases hd

/-! ## Values -/

@[simp] theorem valueFrom_nil (acc : Nat) : valueFrom acc [] = acc := rfl

@[simp] theorem valueFrom_cons (acc : Nat) (c : Char) (ds : List Char) :
    valueFrom acc (c :: ds) = valueFrom (10 * acc + digitValue c) ds := by
  rw [valueFrom, List.foldl_cons, valueFrom]

theorem valueFrom_eq (acc : Nat) (ds : List Char) :
    valueFrom acc ds = acc * 10 ^ ds.length + value ds := by
  unfold value
  induction ds generalizing acc with
  | nil => simp
  | cons c ds ih =>
    rw [valueFrom_cons, ih, valueFrom_cons, ih (10 * 0 + digitValue c), List.length_cons]
    ring

theorem value_append (as bs : List Char) :
    value (as ++ bs) = value as * 10 ^ bs.length + value bs := by
  rw [← valueFrom_eq, value, valueFrom, List.foldl_append]
  rfl

theorem value_cons (c : Char) (ds : List Char) :
    value (c :: ds) = digitValue c * 10 ^ ds.length + value ds := by
  rw [value, valueFrom_cons, valueFrom_eq]
  simp

theorem value_singleton (c : Char) : value [c] = digitValue c := by
  simp [value]

@[simp] theorem value_zeros (n : Nat) : value (List.replicate n '0') = 0 := by
  induction n with
  | zero => rfl
  | succ n ih => exact ih

theorem value_lt {ds : List Char} (h : ∀ c ∈ ds, isDigit c = true) : value ds < 10 ^ ds.length := by
  induction ds with
  | nil => exact Nat.one_pos
  | cons c ds ih =>
    have hc := digitValue_lt (h c List.mem_cons_self)
    have hds := ih fun c hc => h c (List.mem_cons_of_mem _ hc)
    rw [value_cons, List.length_cons, Nat.pow_succ]
    have := Nat.mul_le_mul_right (10 ^ ds.length) (Nat.le_of_lt_succ hc)
    omega

/-! ## Writing -/

theorem digitsOnto_eq (n : Nat) (rest : List Char) : digitsOnto n rest = digits n ++ rest := by
  unfold digits
  induction n using Nat.strong_induction_on generalizing rest with
  | _ n ih =>
    rw [digitsOnto]
    conv_rhs => rw [digitsOnto]
    split
    · rfl
    · next h =>
      rw [ih (n / 10) (by omega), ih (n / 10) (by omega) [digitChar (n % 10)]]
      simp

theorem digits_of_lt {n : Nat} (h : n < 10) : digits n = [digitChar n] := by
  rw [digits, digitsOnto, if_pos h]

theorem digits_of_ge {n : Nat} (h : 10 ≤ n) :
    digits n = digits (n / 10) ++ [digitChar (n % 10)] := by
  rw [digits, digitsOnto, if_neg (by omega), digitsOnto_eq]

/-- Facts about numerals follow from those about a single digit and about a digit put behind a
shorter numeral. -/
theorem digits_induction {P : Nat → List Char → Prop} (single : ∀ d < 10, P d [digitChar d])
    (more : ∀ n d ds, 0 < n → d < 10 → P n ds → P (10 * n + d) (ds ++ [digitChar d])) (n : Nat) :
    P n (digits n) := by
  induction n using Nat.strong_induction_on with
  | _ n ih =>
    rcases Nat.lt_or_ge n 10 with h | h
    · rw [digits_of_lt h]
      exact single n h
    · rw [digits_of_ge h]
      have := more (n / 10) (n % 10) _ (by omega) (by omega) (ih (n / 10) (by omega))
      rwa [Nat.div_add_mod] at this

theorem value_digits (n : Nat) : value (digits n) = n := by
  refine digits_induction (P := fun n ds => value ds = n) ?_ ?_ n
  · intro d hd
    rw [value_singleton, digitValue_digitChar hd]
  · intro n d ds _ hd ih
    rw [value_append, ih, value_singleton, digitValue_digitChar hd, List.length_singleton]
    omega

theorem isDigit_of_mem_digits {n : Nat} : ∀ c ∈ digits n, isDigit c = true := by
  refine digits_induction (P := fun _ ds => ∀ c ∈ ds, isDigit c = true) ?_ ?_ n
  · intro d hd c hc
    rw [List.mem_singleton.1 hc]
    exact isDigit_digitChar hd
  · intro n d ds _ hd ih c hc
    rcases List.mem_append.1 hc with hc | hc
    · exact ih c hc
    · rw [List.mem_singleton.1 hc]
      exact isDigit_digitChar hd

theorem digits_ne_nil (n : Nat) : digits n ≠ [] := by
  refine digits_induction (P := fun _ ds => ds ≠ []) ?_ ?_ n
  · exact fun d _ => List.cons_ne_nil _ _
  · exact fun n d ds _ _ _ => List.append_ne_nil_of_right_ne_nil _ (List.cons_ne_nil _ _)

/-- Only zero is written with a leading zero. -/
theorem head?_digits_ne_zero {n : Nat} (h : 0 < n) : (digits n).head? ≠ some '0' := by
  have key := digits_induction (P := fun n ds => 0 < n → ds ≠ [] ∧ ds.head? ≠ some '0') ?_ ?_ n
  · exact (key h).2
  · intro d hd hpos
    refine ⟨List.cons_ne_nil _ _, ?_⟩
    revert d
    decide
  · intro n d ds hn hd ih _
    obtain ⟨hne, hhead⟩ := ih hn
    refine ⟨List.append_ne_nil_of_left_ne_nil hne _, ?_⟩
    rwa [List.head?_append, Option.or_of_isSome (by simpa using hne)]

theorem length_digits_le {n k : Nat} (hk : 0 < k) (h : n < 10 ^ k) : (digits n).length ≤ k := by
  have key := digits_induction (P := fun n ds => ∀ k, 0 < k → n < 10 ^ k → ds.length ≤ k) ?_ ?_ n
  · exact key k hk h
  · intro d _ k hk _
    exact hk
  · intro n d ds hn hd ih k hk hlt
    obtain ⟨k, rfl⟩ : ∃ j, k = j + 1 := ⟨k - 1, by omega⟩
    rw [List.length_append, List.length_singleton]
    have hn' : n < 10 ^ k := by
      rw [Nat.pow_succ] at hlt
      omega
    have hk' : 0 < k := by
      apply Nat.pos_of_ne_zero
      rintro rfl
      omega
    exact Nat.succ_le_succ (ih k hk' hn')

theorem lt_length_digits {n k : Nat} (h : 10 ^ k ≤ n) : k < (digits n).length := by
  have hlt := value_lt (isDigit_of_mem_digits (n := n))
  rw [value_digits] at hlt
  exact (Nat.pow_lt_pow_iff_right (by decide)).1 (Nat.lt_of_le_of_lt h hlt)

/-! ## Reading -/

/-- A text that does not go on with a digit. -/
def EndsDigits (cs : List Char) : Prop :=
  ∀ c ∈ cs.head?, isDigit c = false

theorem spanDigits_append {ds rest : List Char} (hds : ∀ c ∈ ds, isDigit c = true)
    (hrest : EndsDigits rest) : spanDigits (ds ++ rest) = (ds, rest) := by
  have htake : rest.takeWhile isDigit = [] := by
    cases rest with
    | nil => rfl
    | cons c cs => rw [List.takeWhile_cons_of_neg (by simp [hrest c rfl])]
  have hdrop : rest.dropWhile isDigit = rest := by
    cases rest with
    | nil => rfl
    | cons c cs => rw [List.dropWhile_cons_of_neg (by simp [hrest c rfl])]
  unfold spanDigits
  rw [List.takeWhile_append_of_pos hds, List.dropWhile_append_of_pos hds, htake, hdrop,
    List.append_nil]

end Gamebook.Numeral
