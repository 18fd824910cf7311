import Gamebook.Shell.Run
import Mathlib.Data.List.TakeWhile
import Mathlib.Tactic.SplitIfs

/-!
# What lines mean

A line is stripped to a word.  A word of digits is read as a number, which fails if it has too many
decimal digits, or others (`Shell.lineFailure?`).  If a choice has that number, the line stands for the
id of the choice; any other word stands for itself, unless it takes leave.  These are all the cases
there are, whatever the characters of the line (`Shell.understood`).
-/

namespace Gamebook

/-! ## Decimal digits -/

namespace Text

theorem decimalDigit?_eq_none_iff {c : Char} : decimalDigit? c = none ↔ isDecimalDigit c = false := by
  unfold isDecimalDigit
  cases decimalDigit? c <;> simp

/-- Decimal digits stand for a number, and nothing else does. -/
theorem decimalValue?_eq_none_iff {cs : List Char} :
    decimalValue? cs = none ↔ ∃ c ∈ cs, isDecimalDigit c = false := by
  -- after the first character that is no digit there is no number any more
  have key : ∀ (cs : List Char) (acc : Option Nat),
      cs.foldl (fun acc c => do return 10 * (← acc) + (← decimalDigit? c)) acc = none ↔
        acc = none ∨ ∃ c ∈ cs, isDecimalDigit c = false := by
    intro cs
    induction cs with
    | nil => intro acc; simp
    | cons c cs ih =>
      intro acc
      simp only [List.foldl_cons, ih, List.mem_cons, exists_eq_or_imp, ← decimalDigit?_eq_none_iff]
      cases acc <;> cases decimalDigit? c <;> simp
  rw [decimalValue?, key]
  simp

theorem all_isDecimalDigit_iff {cs : List Char} :
    cs.all isDecimalDigit = true ↔ decimalValue? cs ≠ none := by
  rw [Ne, decimalValue?_eq_none_iff, List.all_eq_true]
  simp

theorem takeWhile_isDecimalDigit {cs : List Char} {n : Nat} (h : decimalValue? cs = some n) :
    cs.takeWhile isDecimalDigit = cs := by
  have hall : cs.all isDecimalDigit = true := all_isDecimalDigit_iff.2 (by simp [h])
  exact List.takeWhile_eq_self_iff.2 (List.all_eq_true.1 hall)

end Text

namespace Shell

/-! ## Lines -/

/-- The word of a line. -/
def word (line : String) : List Char :=
  Text.strip line.toList

/-- The line takes leave. -/
def Leaves (line : String) : Prop :=
  String.ofList (word line) = "q" ∨ String.ofList (word line) = "quit"

/-- The line is a number in decimal digits of any script, few enough to be read. -/
def Spells (line : String) (n : Nat) : Prop :=
  Text.allDigits (word line) = true ∧ (word line).length ≤ Numeral.maxDigits ∧
    Text.decimalValue? (word line) = some n

/-- The line is the number of a choice; the first choice has the number one. -/
def Picks (choices : List Choice) (line : String) (c : Choice) : Prop :=
  ∃ k, Spells line (k + 1) ∧ choices[k]? = some c

/-- Why a line cannot be read.  It consists of digits, and too many of them are decimal, or some are
not. -/
def lineFailure? (line : String) : Option Failure :=
  let count := ((word line).takeWhile Text.isDecimalDigit).length
  if !Text.allDigits (word line) then none
  else if Numeral.maxDigits < count then some (.range (.tooManyDigits count))
  else if (word line).all Text.isDecimalDigit then none
  else some (.noNumber (String.ofList (word line)))

/-- What a line means where the choices are offered, case by case. -/
inductive Understood (choices : List Choice) (line : String) : Answer → Prop where
  | leave (hleaves : Leaves line) : Understood choices line .leave
  | range {e : RangeError} (hfailure : lineFailure? line = some (.range e)) :
    Understood choices line (.range e)
  | noNumber {text : String} (hfailure : lineFailure? line = some (.noNumber text)) :
    Understood choices line (.noNumber text)
  | number {c : Choice} (hpicks : Picks choices line c) : Understood choices line (.take c.id)
  | word (hleaves : ¬ Leaves line) (hreadable : lineFailure? line = none)
    (hpicks : ∀ c, ¬ Picks choices line c) :
    Understood choices line (.take (String.ofList (word line)))

variable {choices : List Choice} {line : String}

theorem understand_eq (choices : List Choice) (line : String) :
    understand choices line =
      if String.ofList (word line) = "q" ∨ String.ofList (word line) = "quit" then .leave
      else if Text.allDigits (word line) then
        if Numeral.maxDigits < ((word line).takeWhile Text.isDecimalDigit).length then
          .range (.tooManyDigits ((word line).takeWhile Text.isDecimalDigit).length)
        else
          match Text.decimalValue? (word line) with
          | none => .noNumber (String.ofList (word line))
          | some 0 => .take (String.ofList (word line))
          | some (n + 1) =>
            match choices[n]? with
            | some c => .take c.id
            | none => .take (String.ofList (word line))
      else .take (String.ofList (word line)) := rfl

/-- A line that is a number is the number of at most one choice. -/
theorem picks_iff {n : Nat} {c : Choice} (h : Spells line n) :
    Picks choices line c ↔ ∃ k, n = k + 1 ∧ choices[k]? = some c := by
  constructor
  · rintro ⟨k, hk, hc⟩
    exact ⟨k, Option.some.inj (h.2.2.symm.trans hk.2.2), hc⟩
  · rintro ⟨k, rfl, hc⟩
    exact ⟨k, h, hc⟩

/-- Every line means something. -/
theorem understood (choices : List Choice) (line : String) :
    Understood choices line (understand choices line) := by
  rw [understand_eq]
  split_ifs with hleaves hdigits hlong
  · exact .leave hleaves
  · refine .range ?_
    simp [lineFailure?, hdigits, hlong]
  · cases hvalue : Text.decimalValue? (word line) with
    | none =>
      have hother : (word line).all Text.isDecimalDigit = false :=
        Bool.eq_false_iff.2 fun hall => Text.all_isDecimalDigit_iff.1 hall hvalue
      refine .noNumber ?_
      simp [lineFailure?, hdigits, hlong, hother]
    | some n =>
      have hall : (word line).all Text.isDecimalDigit = true :=
        Text.all_isDecimalDigit_iff.2 (by simp [hvalue])
      have hreadable : lineFailure? line = none := by
        simp [lineFailure?, hdigits, hlong, hall]
      have hspells : Spells line n := by
        rw [Text.takeWhile_isDecimalDigit hvalue] at hlong
        exact ⟨hdigits, Nat.le_of_not_lt hlong, hvalue⟩
      have hword : (∀ c, ¬ Picks choices line c) →
          Understood choices line (.take (String.ofList (word line))) :=
        .word hleaves hreadable
      simp only [picks_iff hspells] at hword
      cases n with
      | zero => exact hword (by simp)
      | succ k =>
        cases hc : choices[k]? with
        | some c =>
          simp only [hc]
          exact .number ⟨k, hspells, hc⟩
        | none =>
          simp only [hc]
          exact hword (by simp [hc])
  · refine .word hleaves (by simp [lineFailure?, hdigits]) ?_
    rintro c ⟨k, hspells, -⟩
    exact hdigits hspells.1

end Shell

end Gamebook
