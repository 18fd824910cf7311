import Gamebook.Proofs.Trimming

/-!
# The parts between separators

`parts` cuts a text at a separator, removes the blanks around the pieces and leaves the blank ones
out.  Texts that are joined have the parts of each of them (`parts_joinWith`).  So where every one of
them has a part and there are not more parts than texts, each has a single one (`forall₂_flatMap`).
-/

namespace Gamebook.Text

/-! ## Blanks at the end -/

theorem stripEnd_cons {c : Char} (hc : isBlank c = false) (cs : List Char) :
    stripEnd (c :: cs) = c :: stripEnd cs := by
  have hsingle : stripEnd [c] = [c] := by
    apply stripEnd_eq_self
    rintro _ ⟨⟩
    exact hc
  have happend := stripEnd_append [c] cs
  rw [List.singleton_append] at happend
  rw [happend, hsingle]
  split
  · next hnil => rw [hnil]
  · rfl

/-- What is not blank keeps what is in front of it. -/
theorem stripEnd_append_cons {c : Char} (hc : isBlank c = false) (a b : List Char) :
    stripEnd (a ++ c :: b) = a ++ c :: stripEnd b := by
  rw [stripEnd_append, stripEnd_cons hc, if_neg (List.cons_ne_nil _ _)]

theorem dropWhile_stripEnd (cs : List Char) :
    (stripEnd cs).dropWhile isBlank = stripEnd (cs.dropWhile isBlank) := by
  induction cs with
  | nil => rfl
  | cons c cs ih =>
    cases hc : isBlank c with
    | false =>
      have hdrop : ∀ ds, (c :: ds).dropWhile isBlank = c :: ds := fun ds =>
        List.dropWhile_cons_of_neg (by simp [hc])
      rw [stripEnd_cons hc, hdrop, hdrop, stripEnd_cons hc]
    | true =>
      have hdrop : ∀ ds, (c :: ds).dropWhile isBlank = ds.dropWhile isBlank := fun ds =>
        List.dropWhile_cons_of_pos hc
      have happend := stripEnd_append [c] cs
      rw [List.singleton_append] at happend
      rw [hdrop, ← ih, happend]
      split
      · next hnil =>
        have hblank : stripEnd [c] = [] := by simp [stripEnd, List.rdropWhile, hc]
        rw [hnil, hblank]
      · exact hdrop _

theorem strip_stripEnd (cs : List Char) : strip (stripEnd cs) = strip cs := by
  rw [strip_eq, strip_eq, dropWhile_stripEnd]
  exact List.rdropWhile_idempotent isBlank _

/-! ## Cutting -/

theorem cutAt?_eq_some_iff {separator : Char} {cs a b : List Char} :
    cutAt? separator cs = some (a, b) ↔ cs = a ++ separator :: b ∧ separator ∉ a := by
  constructor
  · intro h
    have heq := eq_append_of_cutAt? h
    have hmem : separator ∈ cs := heq ▸ List.mem_append_right _ List.mem_cons_self
    obtain ⟨x, y, rfl, hx⟩ := List.eq_append_cons_of_mem hmem
    rw [cutAt?_append hx] at h
    cases h
    exact ⟨rfl, hx⟩
  · rintro ⟨rfl, ha⟩
    exact cutAt?_append ha b

/-- A text without the blanks at its end is cut where the text itself is cut. -/
theorem exists_of_cutAt?_stripEnd {separator : Char} (hblank : isBlank separator = false)
    {cs a b : List Char} (h : cutAt? separator (stripEnd cs) = some (a, b)) :
    ∃ b', cs = a ++ separator :: b' ∧ separator ∉ a ∧ b = stripEnd b' := by
  obtain ⟨heq, ha⟩ := cutAt?_eq_some_iff.1 h
  obtain ⟨blanks, hblanks⟩ : stripEnd cs <+: cs := List.rdropWhile_prefix _ _
  have hcs : cs = a ++ separator :: (b ++ blanks) := by
    rw [← hblanks, heq, List.append_assoc, List.cons_append]
  refine ⟨b ++ blanks, hcs, ha, ?_⟩
  rw [hcs, stripEnd_append_cons hblank] at heq
  exact (List.cons.inj (List.append_cancel_left heq)).2.symm

/-! ## Pieces -/

variable {separator : Char}

/-- Facts about the pieces of a text follow from those about a text without a separator and about
what is in front of the first separator. -/
theorem pieces_induction (separator : Char) {motive : List Char → Prop}
    (single : ∀ cs, separator ∉ cs → motive cs)
    (more : ∀ a b, separator ∉ a → motive b → motive (a ++ separator :: b)) (cs : List Char) :
    motive cs := by
  induction hn : cs.length using Nat.strong_induction_on generalizing cs with
  | _ n ih =>
    by_cases hmem : separator ∈ cs
    · obtain ⟨a, b, rfl, ha⟩ := List.eq_append_cons_of_mem hmem
      refine more a b ha (ih b.length ?_ b rfl)
      rw [← hn, List.length_append, List.length_cons]
      omega
    · exact single cs hmem

theorem pieces_cons {a : List Char} (h : separator ∉ a) (b : List Char) :
    pieces separator (a ++ separator :: b) = a :: pieces separator b := by
  induction a with
  | nil => exact if_pos rfl
  | cons c cs ih =>
    rw [List.mem_cons, not_or] at h
    rw [List.cons_append, pieces, if_neg (Ne.symm h.1), ih h.2]

theorem pieces_append (a b : List Char) :
    pieces separator (a ++ separator :: b) = pieces separator a ++ pieces separator b := by
  induction a using pieces_induction separator with
  | single a ha =>
    rw [pieces_cons ha, pieces_of_not_mem ha]
    rfl
  | more x y hx ih =>
    rw [List.append_assoc, List.cons_append, pieces_cons hx, ih, pieces_cons hx]
    rfl

theorem not_mem_of_mem_pieces {cs p : List Char} (h : p ∈ pieces separator cs) : separator ∉ p := by
  induction cs using pieces_induction separator with
  | single cs hcs =>
    rw [pieces_of_not_mem hcs] at h
    rwa [List.mem_singleton.1 h]
  | more a b ha ih =>
    rw [pieces_cons ha] at h
    rcases List.mem_cons.1 h with rfl | h
    · exact ha
    · exact ih h

/-! ## Parts -/

/-- The pieces of a text that are not blank, without the blanks around them. -/
def parts (separator : Char) (cs : List Char) : List (List Char) :=
  ((pieces separator cs).filter fun p => !(strip p).isEmpty).map strip

theorem parts_append (a b : List Char) :
    parts separator (a ++ separator :: b) = parts separator a ++ parts separator b := by
  unfold parts
  rw [pieces_append, List.filter_append, List.map_append]

theorem parts_of_not_mem {cs : List Char} (h : separator ∉ cs) :
    parts separator cs = if strip cs = [] then [] else [strip cs] := by
  unfold parts
  rw [pieces_of_not_mem h]
  split
  · next hnil => rw [List.filter_cons_of_neg (by simp [hnil]), List.filter_nil, List.map_nil]
  · next hne => rw [List.filter_cons_of_pos (by simp [hne]), List.filter_nil, List.map_singleton]

theorem mem_parts {cs p : List Char} (h : p ∈ parts separator cs) :
    separator ∉ p ∧ strip p = p ∧ p ≠ [] := by
  obtain ⟨q, hq, rfl⟩ := List.mem_map.1 h
  obtain ⟨hq, hne⟩ := List.mem_filter.1 hq
  refine ⟨fun hmem => ?_, strip_strip q, ?_⟩
  · exact not_mem_of_mem_pieces hq ((strip_isInfix q).subset hmem)
  · simpa using hne

/-- A part is not cut any further. -/
theorem parts_of_mem_parts {cs p : List Char} (h : p ∈ parts separator cs) :
    parts separator p = [p] := by
  obtain ⟨hnot, hstrip, hne⟩ := mem_parts h
  rw [parts_of_not_mem hnot, hstrip, if_neg hne]

theorem parts_ne_nil {cs : List Char} {c : Char} (hmem : c ∈ cs) (hblank : isBlank c = false)
    (hne : c ≠ separator) : parts separator cs ≠ [] := by
  induction cs using pieces_induction separator with
  | single cs hcs =>
    have hstrip : strip cs ≠ [] := List.ne_nil_of_mem (mem_strip hblank hmem)
    rw [parts_of_not_mem hcs, if_neg hstrip]
    exact List.cons_ne_nil _ _
  | more a b ha ih =>
    rw [parts_append]
    rcases List.mem_append.1 hmem with hmem | hmem
    · have hstrip : strip a ≠ [] := List.ne_nil_of_mem (mem_strip hblank hmem)
      rw [parts_of_not_mem ha, if_neg hstrip]
      exact List.cons_ne_nil _ _
    · exact List.append_ne_nil_of_right_ne_nil _ (ih ((List.mem_cons.1 hmem).resolve_left hne))

theorem parts_stripEnd (hblank : isBlank separator = false) (cs : List Char) :
    parts separator (stripEnd cs) = parts separator cs := by
  induction cs using pieces_induction separator with
  | single cs hcs =>
    have hend : separator ∉ stripEnd cs := fun hmem =>
      hcs ((List.rdropWhile_prefix isBlank cs).subset hmem)
    rw [parts_of_not_mem hcs, parts_of_not_mem hend, strip_stripEnd]
  | more a b _ ih =>
    rw [stripEnd_append_cons hblank, parts_append, parts_append, ih]

/-- Joined texts have the parts of each of them. -/
theorem parts_joinWith (ts : List (List Char)) :
    parts separator (joinWith [separator] ts) = ts.flatMap (parts separator) := by
  induction ts with
  | nil => rfl
  | cons t ts ih =>
    cases ts with
    | nil =>
      show parts separator t = parts separator t ++ []
      rw [List.append_nil]
    | cons u us =>
      have hjoin : joinWith [separator] (t :: u :: us) =
          t ++ separator :: joinWith [separator] (u :: us) := List.append_assoc _ _ _
      rw [hjoin, parts_append, ih]
      rfl

/-- Where every element gives something, and all of them together not more than there are of them,
each gives a single thing. -/
theorem forall₂_flatMap {α β : Type} {f : α → List β} {as : List α} (hne : ∀ a ∈ as, f a ≠ [])
    (hlength : (as.flatMap f).length ≤ as.length) :
    List.Forall₂ (fun a b => f a = [b]) as (as.flatMap f) := by
  have hle : ∀ as : List α, (∀ a ∈ as, f a ≠ []) → as.length ≤ (as.flatMap f).length := by
    intro as
    induction as with
    | nil => exact fun _ => Nat.zero_le _
    | cons a as ih =>
      intro h
      obtain ⟨ha, has⟩ := List.forall_mem_cons.1 h
      have hpos := List.length_pos_iff.2 ha
      have hrest := ih has
      rw [List.flatMap_cons, List.length_append, List.length_cons]
      omega
  induction as with
  | nil => exact .nil
  | cons a as ih =>
    obtain ⟨ha, has⟩ := List.forall_mem_cons.1 hne
    have hpos := List.length_pos_iff.2 ha
    have hrest := hle as has
    rw [List.flatMap_cons, List.length_append, List.length_cons] at hlength
    have hone : (f a).length = 1 := by omega
    obtain ⟨b, hb⟩ := List.length_eq_one_iff.1 hone
    rw [List.flatMap_cons, hb]
    exact .cons hb (ih has (by omega))

end Gamebook.Text
