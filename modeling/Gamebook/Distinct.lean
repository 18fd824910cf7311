/-!
# First occurrences and repetitions

`distinct` keeps the first occurrence of everything in a list; `repeats` keeps the others.
-/

namespace Gamebook

variable {α : Type} [DecidableEq α]

/-- The first occurrences in a list. -/
def distinct : List α → List α
  | [] => []
  | a :: as => a :: (distinct as).filter (· ≠ a)

/-- The occurrences in a list that are not the first, where `seen` have occurred before. -/
def repeats (seen : List α) : List α → List α
  | [] => []
  | a :: as => if a ∈ seen then a :: repeats seen as else repeats (a :: seen) as

@[simp] theorem mem_distinct {a : α} {as : List α} : a ∈ distinct as ↔ a ∈ as := by
  induction as with
  | nil => rfl
  | cons b bs ih =>
    by_cases h : a = b
    · simp [distinct, h]
    · simp [distinct, h, ih]

theorem nodup_distinct (as : List α) : (distinct as).Nodup := by
  induction as with
  | nil => exact List.nodup_nil
  | cons a as ih =>
    rw [distinct, List.nodup_cons]
    exact ⟨by simp, ih.filter _⟩

end Gamebook
