/-!
# Cutting texts into pieces

`pieces` cuts a text at every occurrence of a separator and `joinWith` puts pieces together
again.  `cutAt?` cuts at the first occurrence only, and `dropPrefix?` removes a beginning.
-/

namespace Gamebook.Text

/-- The pieces between the occurrences of a separator; there is one more of them. -/
def pieces (separator : Char) : List Char → List (List Char)
  | [] => [[]]
  | c :: cs =>
    if c = separator then [] :: pieces separator cs
    else
      match pieces separator cs with
      | p :: ps => (c :: p) :: ps
      | [] => [[c]]

/-- Joins texts with a separator between them. -/
def joinWith (separator : List Char) : List (List Char) → List Char
  | [] => []
  | [t] => t
  | t :: ts => t ++ separator ++ joinWith separator ts

/-- What is in front of the first occurrence of a separator and what is behind it. -/
def cutAt? (separator : Char) : List Char → Option (List Char × List Char)
  | [] => none
  | c :: cs =>
    if c = separator then some ([], cs)
    else (cutAt? separator cs).map fun r => (c :: r.1, r.2)

/-- What follows a beginning. -/
def dropPrefix? : (beginning cs : List Char) → Option (List Char)
  | [], cs => some cs
  | b :: bs, c :: cs => if b = c then dropPrefix? bs cs else none
  | _ :: _, [] => none

/-- Whether a text occurs somewhere in another. -/
def occursIn (part : List Char) : List Char → Bool
  | [] => part.isEmpty
  | c :: cs => (dropPrefix? part (c :: cs)).isSome || occursIn part cs

theorem length_le_of_mem_pieces {separator : Char} {cs p : List Char}
    (h : p ∈ pieces separator cs) : p.length ≤ cs.length := by
  induction cs generalizing p with
  | nil => simp_all [pieces]
  | cons c cs ih =>
    unfold pieces at h
    split at h
    · rcases List.mem_cons.1 h with rfl | h
      · simp
      · exact Nat.le_succ_of_le (ih h)
    · split at h
      · next q qs hq =>
        rcases List.mem_cons.1 h with rfl | h
        · exact Nat.succ_le_succ (ih (hq ▸ List.mem_cons_self))
        · exact Nat.le_succ_of_le (ih (hq ▸ List.mem_cons_of_mem _ h))
      · simp_all

theorem eq_append_of_cutAt? {separator : Char} {cs a b : List Char}
    (h : cutAt? separator cs = some (a, b)) : cs = a ++ separator :: b := by
  induction cs generalizing a with
  | nil => simp [cutAt?] at h
  | cons c cs ih =>
    unfold cutAt? at h
    split at h
    · simp_all
    · rw [Option.map_eq_some_iff] at h
      obtain ⟨⟨a', b'⟩, h', he⟩ := h
      simp only [Prod.mk.injEq] at he
      obtain ⟨rfl, rfl⟩ := he
      rw [ih h']; rfl

theorem eq_append_of_dropPrefix? {beginning cs rest : List Char}
    (h : dropPrefix? beginning cs = some rest) : cs = beginning ++ rest := by
  induction beginning generalizing cs with
  | nil => simpa [dropPrefix?] using h
  | cons b bs ih =>
    cases cs with
    | nil => simp [dropPrefix?] at h
    | cons c cs =>
      unfold dropPrefix? at h
      split at h
      · next hb => rw [hb, ih h]; rfl
      · simp at h

end Gamebook.Text
