import Gamebook.Proofs.LongRun
import Gamebook.Proofs.Written

/-!
# Documents as beginnings of texts

What a value is read as does not depend on what follows it: where something is put behind a text, the
readers give the same and leave it over (`Reader.readValue_append`).  So an object that is read is not
the beginning of a longer document (`not_read_append`).

A number is the exception, as it may go on.  It does not where some other character follows it already.
-/

namespace Gamebook

open Numeral (isDigit EndsDigits)

variable {cs ds rest : List Char}

/-! ## Numbers -/

theorem Numeral.spanDigits_behind (h : spanDigits cs = (ds, rest)) (hne : rest ≠ [])
    (w : List Char) : spanDigits (cs ++ w) = (ds, rest ++ w) := by
  obtain rfl : cs.takeWhile isDigit = ds := congrArg Prod.fst h
  obtain rfl : cs.dropWhile isDigit = rest := congrArg Prod.snd h
  have hdigits : ∀ c ∈ cs.takeWhile isDigit, isDigit c = true := fun c hc =>
    List.mem_takeWhile_imp hc
  have hends : EndsDigits (cs.dropWhile isDigit ++ w) := by
    intro c hc
    rw [List.head?_append_of_ne_nil _ hne] at hc
    have hnot := List.head?_dropWhile_not isDigit cs
    rw [hc] at hnot
    exact hnot
  have hspan := spanDigits_append hdigits hends
  rwa [← List.append_assoc, List.takeWhile_append_dropWhile] at hspan

namespace Number

theorem EndsNumber.append (h : EndsNumber rest) (hne : rest ≠ []) (w : List Char) :
    EndsNumber (rest ++ w) := by
  intro c hc
  rw [List.head?_append_of_ne_nil _ hne] at hc
  exact h c hc

theorem cutMinus_append (hne : cs ≠ []) (w : List Char) :
    cutMinus (cs ++ w) = ((cutMinus cs).1, (cutMinus cs).2 ++ w) := by
  obtain ⟨c, cs, rfl⟩ := List.exists_cons_of_ne_nil hne
  by_cases hminus : c = '-'
  · subst hminus
    rfl
  · simp [cutMinus, hminus]

theorem cutSign_append (hne : cs ≠ []) (w : List Char) :
    cutSign (cs ++ w) = ((cutSign cs).1, (cutSign cs).2 ++ w) := by
  obtain ⟨c, cs, rfl⟩ := List.exists_cons_of_ne_nil hne
  by_cases hminus : c = '-'
  · subst hminus
    rfl
  · by_cases hplus : c = '+'
    · subst hplus
      rfl
    · simp [cutSign, hminus, hplus]

theorem cutFraction_behind (h : cutFraction cs = some (ds, rest)) (hne : rest ≠ [])
    (w : List Char) : cutFraction (cs ++ w) = some (ds, rest ++ w) := by
  unfold cutFraction at h
  split at h
  · next cs =>
    split at h
    · cases h
    · next hds hspan =>
      cases h
      obtain ⟨d, ds, rfl⟩ := List.exists_cons_of_ne_nil hds
      rw [List.cons_append, cutFraction, Numeral.spanDigits_behind hspan hne w]
  · cases h

theorem cutExponent_behind {e : Int} (h : cutExponent cs = some (e, rest)) (hne : rest ≠ [])
    (w : List Char) : cutExponent (cs ++ w) = some (e, rest ++ w) := by
  unfold cutExponent at h
  split at h
  · next c cs =>
    obtain ⟨hc, h⟩ := Option.ite_none_right_eq_some.1 h
    dsimp only at h
    split at h
    · cases h
    · next hds hspan =>
      cases h
      have hcs : cs ≠ [] := by
        rintro rfl
        cases hspan
        exact hds rfl
      obtain ⟨d, ds, rfl⟩ := List.exists_cons_of_ne_nil hds
      rw [List.cons_append, cutExponent, if_pos hc, cutSign_append hcs]
      dsimp only
      rw [Numeral.spanDigits_behind hspan hne w]
  · cases h

end Number

namespace Datum.Reader

open Number (EndsNumber)

theorem cutWhole_behind (h : cutWhole cs = some (ds, rest)) (hne : rest ≠ []) (w : List Char) :
    cutWhole (cs ++ w) = some (ds, rest ++ w) := by
  unfold cutWhole at h
  split at h
  · cases h
    rfl
  · next hzero =>
    split at h
    · cases h
    · next hds hspan =>
      cases h
      have hcs : cs ≠ [] := by
        rintro rfl
        cases hspan
        exact hds rfl
      obtain ⟨c, cs, rfl⟩ := List.exists_cons_of_ne_nil hcs
      obtain ⟨d, ds, rfl⟩ := List.exists_cons_of_ne_nil hds
      have hc : c ≠ '0' := by
        rintro rfl
        exact hzero _ rfl
      have hspan' := Numeral.spanDigits_behind hspan hne w
      simp only [List.cons_append] at hspan' ⊢
      simp [cutWhole, hc, hspan']

/-- A number ends where something follows that is no part of it. -/
theorem cutNumber?_behind {p : Number.Parts} (h : cutNumber? cs = some (p, rest))
    (hne : rest ≠ []) (hends : EndsNumber rest) (w : List Char) :
    cutNumber? (cs ++ w) = some (p, rest ++ w) := by
  have hpoint : Number.cutFraction (rest ++ w) = none := by
    refine Number.cutFraction_eq_none fun hhead => ?_
    exact (hends.append hne w _ hhead).2.1 rfl
  have hletter : Number.cutExponent (rest ++ w) = none :=
    Number.cutExponent_eq_none fun c hc => (hends.append hne w c hc).2.2
  have hcs : cs ≠ [] := by
    rintro rfl
    cases h
  have hminus := Number.cutMinus_append hcs w
  unfold cutNumber? at h ⊢
  rw [hminus]
  generalize Number.cutMinus cs = cut at h ⊢
  obtain ⟨⟨whole, behind⟩, hwhole, h⟩ := Option.bind_eq_some_iff.1 h
  dsimp only at h ⊢
  split at h
  · next fraction after hfraction =>
    have hbehind : behind ≠ [] := by
      rintro rfl
      cases hfraction
    rw [cutWhole_behind hwhole hbehind w]
    split at h
    · next exponent _ hexponent =>
      cases h
      have hafter : after ≠ [] := by
        rintro rfl
        cases hexponent
      simp [Number.cutFraction_behind hfraction hafter w,
        Number.cutExponent_behind hexponent hne w]
    · cases h
      simp [Number.cutFraction_behind hfraction hne w, hletter]
  · split at h
    · next exponent _ hexponent =>
      cases h
      have hbehind : behind ≠ [] := by
        rintro rfl
        cases hexponent
      have hpoint' : Number.cutFraction (behind ++ w) = none := by
        refine Number.cutFraction_eq_none ?_
        rw [List.head?_append_of_ne_nil _ hbehind]
        cases behind with
        | nil => exact nofun
        | cons c cs =>
          rintro ⟨⟩
          cases hexponent
      rw [cutWhole_behind hwhole hbehind w]
      simp [hpoint', Number.cutExponent_behind hexponent hne w]
    · cases h
      rw [cutWhole_behind hwhole hne w]
      simp [hpoint, hletter]

theorem eq_append_of_cutWord {word : List Char} (h : cutWord word cs = some rest) :
    cs = word ++ rest := by
  induction word generalizing cs with
  | nil => exact Option.some.inj h
  | cons c word ih =>
    cases cs with
    | nil => cases h
    | cons d cs =>
      rw [cutWord] at h
      obtain ⟨hc, h⟩ := Option.ite_none_right_eq_some.1 h
      rw [ih h, hc]
      rfl

/-- A word is read whatever follows it. -/
theorem readScalar_word {word : List Char × Datum} (h : word ∈ words) (rest : List Char) :
    readScalar (word.1 ++ rest) = .ok (word.2, rest) := by
  simp only [words, List.mem_cons, List.not_mem_nil, or_false] at h
  rcases h with rfl | rfl | rfl | rfl | rfl | rfl <;> rfl

theorem exists_digit_of_cutWhole (h : cutWhole cs = some (ds, rest)) :
    ∃ c cs', cs = c :: cs' ∧ isDigit c = true := by
  unfold cutWhole at h
  split at h
  · exact ⟨'0', _, rfl, by decide⟩
  · split at h
    · cases h
    · next hds hspan =>
      cases h
      obtain rfl : cs.takeWhile isDigit = ds := congrArg Prod.fst hspan
      cases cs with
      | nil => exact absurd rfl hds
      | cons c cs =>
        refine ⟨c, cs, rfl, ?_⟩
        by_contra hc
        exact hds (List.takeWhile_cons_of_neg hc)

/-- A number begins with a digit, perhaps behind a minus sign. -/
theorem exists_digit_of_cutNumber? {p : Number.Parts} (h : cutNumber? cs = some (p, rest)) :
    ∃ c cs', isDigit c = true ∧ (cs = c :: cs' ∨ cs = '-' :: c :: cs') := by
  unfold cutNumber? at h
  generalize hcut : Number.cutMinus cs = cut at h
  obtain ⟨⟨whole, behind⟩, hwhole, -⟩ := Option.bind_eq_some_iff.1 h
  obtain ⟨c, cs', hbody, hc⟩ := exists_digit_of_cutWhole hwhole
  refine ⟨c, cs', hc, ?_⟩
  unfold Number.cutMinus at hcut
  split at hcut
  · right
    rw [← hbody, ← hcut]
  · left
    rw [← hbody, ← hcut]

theorem readScalar_behind {d : Datum} (h : readScalar cs = .ok (d, rest)) (hne : rest ≠ [])
    (hends : EndsNumber rest) (w : List Char) : readScalar (cs ++ w) = .ok (d, rest ++ w) := by
  unfold readScalar at h
  split at h
  · next r hr =>
    cases h
    obtain ⟨word, hword, hcut⟩ := List.exists_of_findSome?_eq_some hr
    obtain ⟨rest, hrest, heq⟩ := Option.map_eq_some_iff.1 hcut
    cases heq
    obtain rfl := eq_append_of_cutWord hrest
    rw [List.append_assoc]
    exact readScalar_word hword _
  · split at h
    · next p rest' hcut =>
      obtain ⟨c, cs', hc, hbegins⟩ := exists_digit_of_cutNumber? hcut
      have hbegins' : cs ++ w = c :: (cs' ++ w) ∨ cs ++ w = '-' :: c :: (cs' ++ w) := by
        rcases hbegins with rfl | rfl <;> simp
      have hwords := findSome?_words_digit hc hbegins'
      split at h
      · next n hn =>
        cases h
        have hcut' := cutNumber?_behind hcut hne hends w
        simp [readScalar, hwords, hcut', hn]
      · cases h
    · cases h

theorem consUnit_eq_ok {u : Nat} {x : Except Fault (List Nat × List Char)} {us : List Nat}
    (h : consUnit u x = .ok (us, rest)) : ∃ us', x = .ok (us', rest) ∧ us = u :: us' := by
  cases x with
  | ok r =>
    cases h
    exact ⟨r.1, rfl, rfl⟩
  | error f => cases h

theorem readUnits_escape {c e : Char} (hc : c ≠ 'u') (he : escaped? c = some e)
    (start rest : List Char) :
    readUnits start ('\\' :: c :: rest) = consUnit e.toNat (readUnits start rest) := by
  cases rest <;> simp [readUnits, hc, he]

theorem readUnits_append {start : List Char} {us : List Nat} (h : readUnits start cs = .ok (us, rest))
    (start' w : List Char) : readUnits start' (cs ++ w) = .ok (us, rest ++ w) := by
  fun_induction readUnits start cs generalizing us with
  | case2 rest =>
    cases h
    rw [List.cons_append, readUnits]
  | case4 a b c d u next rest hunit ih =>
    obtain ⟨us', hus, rfl⟩ := consUnit_eq_ok h
    have hread := ih hus
    simp only [List.cons_append] at hread ⊢
    simp [readUnits, hunit, hread, consUnit]
  | case7 c rest _ hunicode e he ih =>
    obtain ⟨us', hus, rfl⟩ := consUnit_eq_ok h
    have hread := ih hus
    rw [List.cons_append, List.cons_append, readUnits_escape hunicode he, hread]
    rfl
  | case10 c rest hquote hempty _ _ hescape hcontrol ih =>
    obtain ⟨us', hus, rfl⟩ := consUnit_eq_ok h
    have hread := ih hus
    have hslash : c ≠ '\\' := by
      intro hc
      cases rest with
      | nil => exact hempty hc rfl
      | cons d rest => exact hescape d rest hc rfl
    simp only [List.cons_append]
    simp [readUnits, hslash, hcontrol, hread, consUnit]
  | case1 | case3 | case5 | case6 | case8 | case9 => cases h

theorem readText_append {start : List Char} {s : String} (h : readText start cs = .ok (s, rest))
    (start' w : List Char) : readText start' (cs ++ w) = .ok (s, rest ++ w) := by
  unfold readText at h ⊢
  split at h
  · next hunits =>
    cases h
    rw [readUnits_append hunits start' w]
  · cases h

/-! ## Values -/

theorem skip_append (hne : skip cs ≠ []) (w : List Char) : skip (cs ++ w) = skip cs ++ w := by
  unfold skip at hne ⊢
  rw [List.dropWhile_append, if_neg (by simpa using hne)]

theorem skip_append_of_cons {c : Char} {after : List Char} (h : skip cs = c :: after)
    (w : List Char) : skip (cs ++ w) = c :: (after ++ w) := by
  have hne : skip cs ≠ [] := by
    rw [h]
    exact List.cons_ne_nil _ _
  rw [skip_append hne, h]
  rfl

/-- A blank, a comma or a closing bracket is no part of a number. -/
theorem endsNumber_of_skip {c : Char} {after : List Char} (h : skip cs = c :: after)
    (hc : c = ',' ∨ c = ']' ∨ c = '\x7d') : cs ≠ [] ∧ EndsNumber cs := by
  cases cs with
  | nil => cases h
  | cons d cs =>
    refine ⟨List.cons_ne_nil _ _, ?_⟩
    rintro _ ⟨⟩
    cases hd : isBlank d with
    | true =>
      simp only [isBlank, Bool.or_eq_true, decide_eq_true_eq] at hd
      rcases hd with ((rfl | rfl) | rfl) | rfl <;> decide
    | false =>
      rw [skip_cons hd] at h
      obtain ⟨rfl, -⟩ := List.cons.inj h
      rcases hc with rfl | rfl | rfl <;> decide

theorem readValue_nil (fuel : Nat) (r : Datum × List Char) : readValue fuel [] ≠ .ok r := by
  cases fuel <;> exact nofun

theorem readItems_nil (fuel : Nat) (r : List Datum × List Char) : readItems fuel [] ≠ .ok r := by
  cases fuel with
  | zero => exact nofun
  | succ fuel =>
    intro h
    rw [readItems] at h
    obtain ⟨r', hr, -⟩ := bind_eq_ok_iff.1 h
    exact readValue_nil fuel r' hr

theorem readMembers_nil (fuel : Nat) (r : List (String × Datum) × List Char) :
    readMembers fuel [] ≠ .ok r := by
  cases fuel <;> exact nofun

mutual

/-- A value is read whatever follows it.  If it may be a number, something else follows it already. -/
theorem readValue_append : (fuel : Nat) → ∀ {cs rest : List Char} {d : Datum},
    readValue fuel cs = .ok (d, rest) → cs.head? = some '\x7b' ∨ rest ≠ [] ∧ EndsNumber rest →
    ∀ {fuel' : Nat}, fuel ≤ fuel' → ∀ w, readValue fuel' (cs ++ w) = .ok (d, rest ++ w)
  | 0, _, _, _, h, _, _, _, _ => by cases h
  | fuel + 1, cs, rest, d, h, hends, fuel', hfuel, w => by
    obtain ⟨fuel', rfl⟩ : ∃ k, fuel' = k + 1 := ⟨fuel' - 1, by omega⟩
    have hfuel : fuel ≤ fuel' := by omega
    unfold readValue at h
    split at h
    · obtain ⟨⟨s, behind⟩, hs, h⟩ := bind_eq_ok_iff.1 h
      cases h
      rw [List.cons_append, readValue, readText_append hs _ w]
      rfl
    · next cs =>
      split at h
      · next after hskip =>
        cases h
        rw [List.cons_append, readValue, skip_append_of_cons hskip]
        rfl
      · next hnot =>
        obtain ⟨⟨items, behind⟩, hitems, h⟩ := bind_eq_ok_iff.1 h
        cases h
        have hcs : skip cs ≠ [] := fun hnil => readItems_nil fuel _ (hnil ▸ hitems)
        refine readValue_bracket (skip_append hcs w) ?_ (readItems_append fuel hitems hfuel w)
        rw [List.head?_append_of_ne_nil _ hcs]
        intro hhead
        obtain ⟨after, hafter⟩ := List.head?_eq_some_iff.1 hhead
        exact hnot after hafter
    · next cs =>
      split at h
      · next after hskip =>
        cases h
        rw [List.cons_append, readValue, skip_append_of_cons hskip]
        rfl
      · next hnot =>
        obtain ⟨⟨members, behind⟩, hmembers, h⟩ := bind_eq_ok_iff.1 h
        cases h
        have hcs : skip cs ≠ [] := fun hnil => readMembers_nil fuel _ (hnil ▸ hmembers)
        refine readValue_brace (skip_append hcs w) ?_ (readMembers_append fuel hmembers hfuel w)
        rw [List.head?_append_of_ne_nil _ hcs]
        intro hhead
        obtain ⟨after, hafter⟩ := List.head?_eq_some_iff.1 hhead
        exact hnot after hafter
    · next hquote hlist hobject =>
      cases cs with
      | nil => cases h
      | cons c cs =>
        have hc : c ≠ '"' ∧ c ≠ '[' ∧ c ≠ '\x7b' :=
          ⟨fun heq => hquote cs (heq ▸ rfl), fun heq => hlist cs (heq ▸ rfl),
            fun heq => hobject cs (heq ▸ rfl)⟩
        obtain ⟨hne, hends⟩ := hends.resolve_left fun hhead => hc.2.2 (Option.some.inj hhead)
        have hscalar := readScalar_behind h hne hends w
        rw [List.cons_append] at hscalar ⊢
        rw [readValue_scalar hc, hscalar]

theorem readItems_append : (fuel : Nat) → ∀ {cs rest : List Char} {ds : List Datum},
    readItems fuel cs = .ok (ds, rest) →
    ∀ {fuel' : Nat}, fuel ≤ fuel' → ∀ w, readItems fuel' (cs ++ w) = .ok (ds, rest ++ w)
  | 0, _, _, _, h, _, _, _ => by cases h
  | fuel + 1, cs, rest, ds, h, fuel', hfuel, w => by
    obtain ⟨fuel', rfl⟩ : ∃ k, fuel' = k + 1 := ⟨fuel' - 1, by omega⟩
    have hfuel : fuel ≤ fuel' := by omega
    rw [readItems] at h ⊢
    obtain ⟨⟨d, behind⟩, hd, h⟩ := bind_eq_ok_iff.1 h
    dsimp only at h
    split at h
    · next after hskip =>
      cases h
      have hends := endsNumber_of_skip hskip (.inr (.inl rfl))
      rw [readValue_append fuel hd (.inr hends) hfuel w, ok_bind]
      dsimp only
      rw [skip_append_of_cons hskip]
      rfl
    · next after hskip =>
      obtain ⟨⟨ds', last⟩, hds, h⟩ := bind_eq_ok_iff.1 h
      cases h
      have hends := endsNumber_of_skip hskip (.inl rfl)
      have hafter : skip after ≠ [] := fun hnil => readItems_nil fuel _ (hnil ▸ hds)
      rw [readValue_append fuel hd (.inr hends) hfuel w, ok_bind]
      dsimp only
      rw [skip_append_of_cons hskip]
      simp only
      rw [skip_append hafter, readItems_append fuel hds hfuel w]
      rfl
    · cases h

theorem readMembers_append : (fuel : Nat) → ∀ {cs rest : List Char} {ms : List (String × Datum)},
    readMembers fuel cs = .ok (ms, rest) →
    ∀ {fuel' : Nat}, fuel ≤ fuel' → ∀ w, readMembers fuel' (cs ++ w) = .ok (ms, rest ++ w)
  | 0, _, _, _, h, _, _, _ => by cases h
  | fuel + 1, cs, rest, ms, h, fuel', hfuel, w => by
    obtain ⟨fuel', rfl⟩ : ∃ k, fuel' = k + 1 := ⟨fuel' - 1, by omega⟩
    have hfuel : fuel ≤ fuel' := by omega
    unfold readMembers at h
    split at h
    · obtain ⟨⟨name, behind⟩, hname, h⟩ := bind_eq_ok_iff.1 h
      rw [List.cons_append, readMembers, readText_append hname _ w, ok_bind]
      dsimp only at h ⊢
      split at h
      · next value hcolon =>
        rw [skip_append_of_cons hcolon]
        simp only
        obtain ⟨⟨d, behind'⟩, hd, h⟩ := bind_eq_ok_iff.1 h
        have hvalue : skip value ≠ [] := fun hnil => readValue_nil fuel _ (hnil ▸ hd)
        rw [skip_append hvalue]
        dsimp only at h
        split at h
        · next after hskip =>
          cases h
          have hends := endsNumber_of_skip hskip (.inr (.inr rfl))
          rw [readValue_append fuel hd (.inr hends) hfuel w, ok_bind]
          dsimp only
          rw [skip_append_of_cons hskip]
          rfl
        · next after hskip =>
          obtain ⟨⟨ms', last⟩, hms, h⟩ := bind_eq_ok_iff.1 h
          cases h
          have hends := endsNumber_of_skip hskip (.inl rfl)
          have hafter : skip after ≠ [] := fun hnil => readMembers_nil fuel _ (hnil ▸ hms)
          rw [readValue_append fuel hd (.inr hends) hfuel w, ok_bind]
          dsimp only
          rw [skip_append_of_cons hskip]
          simp only
          rw [skip_append hafter, readMembers_append fuel hms hfuel w]
          rfl
        · cases h
      · cases h
    · cases h

end

end Datum.Reader

/-- An object that is read is not the beginning of a longer document. -/
theorem Datum.not_read_append {d : Datum} (h : read ('\x7b' :: cs) = .ok d) {w : List Char} {c : Char}
    (hc : c ∈ w) (hblank : Reader.isBlank c = false) (d' : Datum) :
    read ('\x7b' :: cs ++ w) ≠ .ok d' := by
  intro h'
  obtain ⟨value, rest, hvalue, -, -⟩ := exists_readValue_of_read h
  obtain ⟨value', rest', hvalue', hrest', -⟩ := exists_readValue_of_read h'
  have hfuel : 2 * ('\x7b' :: cs).length + 1 ≤ 2 * ('\x7b' :: cs ++ w).length + 1 := by
    rw [List.length_append]
    omega
  have happend := Reader.readValue_append _ hvalue (.inl rfl) hfuel w
  -- what is put behind is left over, and it is not blank
  obtain ⟨-, rfl⟩ := Prod.mk.inj (Except.ok.inj (happend.symm.trans hvalue'))
  have hall := List.dropWhile_eq_nil_iff.1 hrest'
  rw [hall c (List.mem_append_right _ hc)] at hblank
  cases hblank

end Gamebook
