import Gamebook.Text.Blank
import Gamebook.Text.Pieces
import Mathlib.Data.List.DropRight
import Mathlib.Data.List.TakeWhile

/-!
# Trimmed and cut texts

A trimmed text is not trimmed any further (`strip_strip`), and behind a beginning without blanks at
its ends only the end of a text is trimmed (`strip_append`).  A cut is made at the first separator
(`cutAt?_append`).  Whatever is trimmed or cut off leaves a part of the text (`strip_isInfix`,
`cutAt?_isInfix`, `dropPrefix?_isInfix`, `pieces_isInfix`).
-/

namespace Gamebook.Text

/-- A text without blanks at its end. -/
def stripEnd (cs : List Char) : List Char :=
  cs.rdropWhile isBlank

theorem strip_eq (cs : List Char) : strip cs = stripEnd (cs.dropWhile isBlank) := rfl

theorem stripEnd_append (a b : List Char) :
    stripEnd (a ++ b) = if stripEnd b = [] then stripEnd a else a ++ stripEnd b := by
  unfold stripEnd List.rdropWhile
  rw [List.reverse_append, List.dropWhile_append]
  simp only [List.isEmpty_iff, List.reverse_eq_nil_iff]
  split
  · rfl
  · rw [List.reverse_append, List.reverse_reverse]

theorem rdropWhile_eq_self {p : Char → Bool} {cs : List Char}
    (h : ∀ c ∈ cs.getLast?, p c = false) : cs.rdropWhile p = cs := by
  refine List.rdropWhile_eq_self_iff.2 fun hne => ?_
  rw [h _ (List.getLast_mem_getLast? hne)]
  exact Bool.false_ne_true

theorem stripEnd_eq_self {cs : List Char} (h : ∀ c ∈ cs.getLast?, isBlank c = false) :
    stripEnd cs = cs :=
  rdropWhile_eq_self h

theorem stripEnd_append_of_forall (a : List Char) {b : List Char} (hne : b ≠ [])
    (h : ∀ c ∈ b, isBlank c = false) : stripEnd (a ++ b) = a ++ b := by
  apply stripEnd_eq_self
  rw [List.getLast?_append_of_ne_nil _ hne]
  exact fun c hc => h c (List.mem_of_mem_getLast? hc)

theorem dropWhile_eq_self {p : Char → Bool} {cs : List Char} (h : ∀ c ∈ cs.head?, p c = false) :
    cs.dropWhile p = cs := by
  cases cs with
  | nil => rfl
  | cons c cs => rw [List.dropWhile_cons_of_neg (by simp [h c rfl])]

theorem trim_eq_self {p : Char → Bool} {cs : List Char} (hhead : ∀ c ∈ cs.head?, p c = false)
    (hlast : ∀ c ∈ cs.getLast?, p c = false) : trim p cs = cs := by
  unfold trim
  rw [dropWhile_eq_self hhead]
  exact rdropWhile_eq_self hlast

theorem strip_eq_self {cs : List Char} (hhead : ∀ c ∈ cs.head?, isBlank c = false)
    (hlast : ∀ c ∈ cs.getLast?, isBlank c = false) : strip cs = cs :=
  trim_eq_self hhead hlast

theorem strip_of_forall {cs : List Char} (h : ∀ c ∈ cs, isBlank c = false) : strip cs = cs :=
  strip_eq_self (fun c hc => h c (List.mem_of_mem_head? hc))
    fun c hc => h c (List.mem_of_mem_getLast? hc)

/-- Behind a beginning without blanks at its ends only the end is trimmed. -/
theorem strip_append {a : List Char} (hne : a ≠ []) (hhead : ∀ c ∈ a.head?, isBlank c = false)
    (hlast : ∀ c ∈ a.getLast?, isBlank c = false) (b : List Char) :
    strip (a ++ b) = a ++ stripEnd b := by
  have hhead' : ∀ c ∈ (a ++ b).head?, isBlank c = false := by
    rwa [List.head?_append_of_ne_nil _ hne]
  rw [strip_eq, dropWhile_eq_self hhead', stripEnd_append, stripEnd_eq_self hlast]
  split
  · next h => rw [h, List.append_nil]
  · rfl

theorem head?_strip (cs : List Char) : ∀ c ∈ (strip cs).head?, isBlank c = false := by
  intro c hc
  obtain ⟨t, ht⟩ : strip cs <+: cs.dropWhile isBlank := List.rdropWhile_prefix isBlank _
  have hnot := List.head?_dropWhile_not isBlank cs
  rw [← ht] at hnot
  obtain ⟨r, hr⟩ := List.head?_eq_some_iff.1 hc
  rw [hr] at hnot
  exact hnot

theorem getLast?_strip (cs : List Char) : ∀ c ∈ (strip cs).getLast?, isBlank c = false := by
  intro c hc
  have hne : strip cs ≠ [] := by
    intro hnil
    rw [hnil] at hc
    cases hc
  have hnot := List.rdropWhile_last_not isBlank (cs.dropWhile isBlank) hne
  have hlast : (strip cs).getLast hne = c := by
    rw [List.getLast?_eq_some_getLast hne] at hc
    exact Option.some.inj hc
  rw [← hlast]
  exact Bool.eq_false_iff.2 hnot

/-- A trimmed text is not trimmed any further. -/
theorem strip_strip (cs : List Char) : strip (strip cs) = strip cs :=
  strip_eq_self (head?_strip cs) (getLast?_strip cs)

theorem mem_dropWhile {p : Char → Bool} {c : Char} (hc : p c = false) {cs : List Char}
    (h : c ∈ cs) : c ∈ cs.dropWhile p := by
  induction cs with
  | nil => cases h
  | cons d ds ih =>
    rw [List.dropWhile_cons]
    split
    · next hd =>
      rcases List.mem_cons.1 h with rfl | h
      · rw [hc] at hd
        cases hd
      · exact ih h
    · exact h

/-- What is not blank is not trimmed. -/
theorem mem_strip {c : Char} (hc : isBlank c = false) {cs : List Char} (h : c ∈ cs) :
    c ∈ strip cs := by
  unfold strip trim
  rw [List.mem_reverse]
  apply mem_dropWhile hc
  rw [List.mem_reverse]
  exact mem_dropWhile hc h

theorem cutAt?_append {separator : Char} {a : List Char} (h : separator ∉ a) (b : List Char) :
    cutAt? separator (a ++ separator :: b) = some (a, b) := by
  induction a with
  | nil => exact if_pos rfl
  | cons c cs ih =>
    rw [List.mem_cons, not_or] at h
    rw [List.cons_append, cutAt?, if_neg (Ne.symm h.1), ih h.2]
    rfl

/-- A text without a separator is a single piece. -/
theorem pieces_of_not_mem {separator : Char} {cs : List Char} (h : separator ∉ cs) :
    pieces separator cs = [cs] := by
  induction cs with
  | nil => rfl
  | cons c cs ih =>
    rw [List.mem_cons, not_or] at h
    rw [pieces, if_neg (Ne.symm h.1), ih h.2]

/-! ## Parts of a text -/

theorem strip_isInfix (cs : List Char) : strip cs <:+: cs := by
  have hstart : strip cs <+: cs.dropWhile isBlank := List.rdropWhile_prefix isBlank _
  exact hstart.isInfix.trans (List.dropWhile_suffix _).isInfix

theorem cutAt?_isInfix {separator : Char} {cs a b : List Char}
    (h : cutAt? separator cs = some (a, b)) : a <:+: cs ∧ b <:+: cs := by
  rw [eq_append_of_cutAt? h]
  exact ⟨(List.prefix_append _ _).isInfix,
    ((List.suffix_cons _ _).trans (List.suffix_append _ _)).isInfix⟩

theorem dropPrefix?_isInfix {beginning cs rest : List Char}
    (h : dropPrefix? beginning cs = some rest) :
    rest <:+: cs := by
  rw [eq_append_of_dropPrefix? h]
  exact (List.suffix_append _ _).isInfix

/-- The first piece is in front of all others. -/
theorem exists_pieces_eq (separator : Char) (cs : List Char) :
    ∃ p ps, pieces separator cs = p :: ps ∧ p <+: cs ∧ ∀ q ∈ ps, q <:+: cs := by
  induction cs with
  | nil => exact ⟨[], [], rfl, List.prefix_refl _, List.forall_mem_nil _⟩
  | cons c cs ih =>
    obtain ⟨p, ps, hpieces, hp, hps⟩ := ih
    have htail := (List.suffix_cons c cs).isInfix
    rw [pieces, hpieces]
    split
    · refine ⟨[], p :: ps, rfl, List.nil_prefix, List.forall_mem_cons.2 ⟨?_, ?_⟩⟩
      · exact hp.isInfix.trans htail
      · exact fun q hq => (hps q hq).trans htail
    · exact ⟨c :: p, ps, rfl, List.cons_prefix_cons.2 ⟨rfl, hp⟩, fun q hq => (hps q hq).trans htail⟩

theorem pieces_isInfix {separator : Char} {cs p : List Char} (h : p ∈ pieces separator cs) :
    p <:+: cs := by
  obtain ⟨q, qs, hpieces, hq, hqs⟩ := exists_pieces_eq separator cs
  rw [hpieces] at h
  rcases List.mem_cons.1 h with rfl | h
  · exact hq.isInfix
  · exact hqs p h

end Gamebook.Text
