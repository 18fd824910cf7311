import Gamebook.Datum.Reader
import Gamebook.Proofs.InRange
import Gamebook.Proofs.Trimming

/-!
# Long runs of digits

An integer is out of range, or has too many digits to be read, only if it has more than 308 digits,
and those stand next to each other in the text that it is read from (`LongRun`).  So the reader of
documents finds such an integer, or stops at one, only in a text with a long run of digits
(`Datum.gives_read`).

Each reader leaves an end of the text (`Reads`): the text is fixed, and the induction over the readers
carries that what is still to be read is an end of it.  It is the same for every fact that lists and
objects have from what is in them (`Reader.Inherited`, `Reader.gives_readAll`).
-/

namespace Gamebook

namespace Numeral

/-- Consecutive digits, more of them than an integer in range has. -/
def LongRun (cs : List Char) : Prop :=
  ∃ run, run <:+: cs ∧ 308 < run.length ∧ ∀ c ∈ run, isDigit c = true

theorem LongRun.mono {a b : List Char} (h : LongRun a) (hab : a <:+: b) : LongRun b := by
  obtain ⟨run, hrun, hlength, hdigits⟩ := h
  exact ⟨run, hrun.trans hab, hlength, hdigits⟩

theorem longRun_of_le_value {ds : List Char} (hdigits : ∀ c ∈ ds, isDigit c = true)
    (h : 10 ^ 308 ≤ value ds) : LongRun ds := by
  refine ⟨ds, List.infix_refl ds, ?_, hdigits⟩
  by_contra hle
  have hpow : 10 ^ ds.length ≤ 10 ^ 308 := Nat.pow_le_pow_right (by decide) (Nat.le_of_not_lt hle)
  exact absurd (value_lt hdigits) (Nat.not_lt.2 (Nat.le_trans hpow h))

end Numeral

open Numeral (LongRun isDigit)

namespace Number

/-- An integer of more than 308 digits. -/
def Huge : Number → Prop
  | .int n => 10 ^ 308 ≤ n.natAbs
  | .float _ => False

theorem huge_of_isFinite {n : Number} {e : RangeError} (h : n.isFinite = .error e) : n.Huge := by
  cases n with
  | int n => exact le_natAbs_of_isFinite h
  | float x => cases h

theorem natAbs_signed (negative : Bool) (n : Nat) : (signed negative n).natAbs = n := by
  unfold signed
  split
  · rw [Int.natAbs_neg, Int.natAbs_natCast]
  · rw [Int.natAbs_natCast]

namespace Parts

/-- The digits in front of the point stand in a text. -/
structure WholeIn (p : Parts) (cs : List Char) : Prop where
  isInfix : p.whole <:+: cs
  digits : ∀ c ∈ p.whole, isDigit c = true

/-- A number has more than 308 digits, or its notation too many, only where they stand. -/
theorem gives_toNumber {p : Parts} {cs : List Char} (h : p.WholeIn cs) :
    Gives p.toNumber (fun n => n.Huge → LongRun cs) (fun _ => LongRun cs) := by
  unfold toNumber toInt
  split
  · split
    · next hlong =>
      exact ⟨p.whole, h.isInfix, Nat.lt_of_le_of_lt (by decide) hlong, h.digits⟩
    · intro hhuge
      have hvalue : 10 ^ 308 ≤ (signed p.negative (Numeral.value p.whole)).natAbs := hhuge
      rw [natAbs_signed] at hvalue
      exact (Numeral.longRun_of_le_value h.digits hvalue).mono h.isInfix
  · exact False.elim

theorem WholeIn.mono {p : Parts} {as bs : List Char} (h : p.WholeIn as) (hab : as <:+: bs) :
    p.WholeIn bs := ⟨h.isInfix.trans hab, h.digits⟩

theorem wholeIn_of_ofDigits? {negative : Bool} {cs : List Char} {p : Parts}
    (h : ofDigits? negative cs = some p) : p.WholeIn cs := by
  have hspan : ∀ whole rest, Numeral.spanDigits cs = (whole, rest) →
      whole <:+: cs ∧ ∀ c ∈ whole, isDigit c = true := by
    intro whole rest hspan
    obtain rfl : cs.takeWhile isDigit = whole := congrArg Prod.fst hspan
    exact ⟨(List.takeWhile_prefix _).isInfix, fun c hc => List.mem_takeWhile_imp hc⟩
  unfold ofDigits? at h
  split at h
  · cases h
  · next whole _ hcs =>
    obtain rfl := Option.some.inj h
    exact ⟨(hspan _ _ hcs).1, (hspan _ _ hcs).2⟩
  · next whole rest _ _ hcs =>
    split at h
    · obtain rfl := Option.some.inj h
      exact ⟨(hspan _ _ hcs).1, (hspan _ _ hcs).2⟩
    · cases h

end Parts

theorem cutMinus_suffix (cs : List Char) : (cutMinus cs).2 <:+ cs := by
  unfold cutMinus
  split
  · exact List.suffix_cons _ _
  · exact List.suffix_refl _

theorem Parts.wholeIn_of_ofPlain? {cs : List Char} {p : Parts} (h : ofPlain? cs = some p) :
    p.WholeIn cs :=
  (wholeIn_of_ofDigits? h).mono (cutMinus_suffix cs).isInfix

theorem dropDigits_suffix {cs ds rest : List Char} (h : Numeral.spanDigits cs = (ds, rest)) :
    rest <:+ cs := by
  obtain rfl : cs.dropWhile isDigit = rest := congrArg Prod.snd h
  exact List.dropWhile_suffix _

theorem cutFraction_suffix {cs ds rest : List Char} (h : cutFraction cs = some (ds, rest)) :
    rest <:+ cs := by
  unfold cutFraction at h
  split at h
  · split at h
    · cases h
    · next hspan =>
      cases h
      exact (dropDigits_suffix hspan).trans (List.suffix_cons _ _)
  · cases h

theorem cutSign_suffix (cs : List Char) : (cutSign cs).2 <:+ cs := by
  unfold cutSign
  split
  · exact List.suffix_cons _ _
  · exact List.suffix_cons _ _
  · exact List.suffix_refl _

theorem cutExponent_suffix {cs rest : List Char} {e : Int}
    (h : cutExponent cs = some (e, rest)) : rest <:+ cs := by
  unfold cutExponent at h
  split at h
  · next c cs =>
    split at h
    · dsimp only at h
      split at h
      · cases h
      · next hspan =>
        cases h
        exact (dropDigits_suffix hspan).trans ((cutSign_suffix _).trans (List.suffix_cons _ _))
    · cases h
  · cases h

end Number

namespace Datum

/-- Somewhere in a datum is an integer of more than 308 digits. -/
inductive Huge : Datum → Prop where
  | number {n : Number} (h : n.Huge) : Huge (.number n)
  | item {items : List Datum} {d : Datum} (hd : d ∈ items) (h : Huge d) : Huge (.list items)
  | member {members : List (String × Datum)} {name : String} {d : Datum}
      (hd : (name, d) ∈ members) (h : Huge d) : Huge (.object members)

/-! ## Settling -/

theorem mem_of_mem_putEntry {α : Type} {name : String} {value : α} {es : List (String × α)}
    {e : String × α} (h : e ∈ putEntry name value es) : e = (name, value) ∨ e ∈ es := by
  induction es with
  | nil => exact .inl (List.mem_singleton.1 h)
  | cons e' es ih =>
    rw [putEntry] at h
    split at h
    · next hname =>
      rcases List.mem_cons.1 h with rfl | h
      · exact .inl (by rw [hname])
      · exact .inr (List.mem_cons_of_mem _ h)
    · rcases List.mem_cons.1 h with rfl | h
      · exact .inr List.mem_cons_self
      · exact (ih h).imp_right (List.mem_cons_of_mem _)

theorem mem_of_mem_mergeEntries {α : Type} {es : List (String × α)} {e : String × α}
    (h : e ∈ mergeEntries es) : e ∈ es := by
  -- the entries merged so far are the accumulator
  have key : ∀ acc : List (String × α),
      e ∈ es.foldl (fun acc e => putEntry e.1 e.2 acc) acc → e ∈ acc ∨ e ∈ es := by
    clear h
    induction es with
    | nil => exact fun acc h => .inl h
    | cons e' es ih =>
      intro acc h
      rcases ih _ h with h | h
      · rcases mem_of_mem_putEntry h with rfl | h
        · exact .inr List.mem_cons_self
        · exact .inl h
      · exact .inr (List.mem_cons_of_mem _ h)
  exact (key [] h).resolve_left List.not_mem_nil

mutual

/-- Settling adds no integers. -/
theorem huge_of_settle : (d : Datum) → d.settle.Huge → d.Huge
  | .null, h | .truth _, h | .number _, h | .text _, h => h
  | .list items, h => by
    rw [settle] at h
    cases h with
    | item hd h =>
      obtain ⟨d, hd, hhuge⟩ := huge_of_settleItems items hd h
      exact .item hd hhuge
  | .object members, h => by
    rw [settle] at h
    cases h with
    | member hm h =>
      obtain ⟨m, hm, hhuge⟩ := huge_of_settleMembers members (mem_of_mem_mergeEntries hm) h
      exact .member hm hhuge

theorem huge_of_settleItems : (ds : List Datum) → ∀ {d}, d ∈ settleItems ds → d.Huge →
    ∃ d ∈ ds, d.Huge
  | [], _, hd, _ => nomatch hd
  | d' :: ds, _, hd, h => by
    rcases List.mem_cons.1 hd with rfl | hd
    · exact ⟨d', List.mem_cons_self, huge_of_settle d' h⟩
    · obtain ⟨d, hd, hhuge⟩ := huge_of_settleItems ds hd h
      exact ⟨d, List.mem_cons_of_mem _ hd, hhuge⟩

theorem huge_of_settleMembers : (ms : List (String × Datum)) → ∀ {m}, m ∈ settleMembers ms →
    m.2.Huge → ∃ m ∈ ms, m.2.Huge
  | [], _, hm, _ => nomatch hm
  | (k, d) :: ms, _, hm, h => by
    rcases List.mem_cons.1 hm with rfl | hm
    · exact ⟨(k, d), List.mem_cons_self, huge_of_settle d h⟩
    · obtain ⟨m, hm, hhuge⟩ := huge_of_settleMembers ms hm h
      exact ⟨m, List.mem_cons_of_mem _ hm, hhuge⟩

end

/-! ## Reading -/

namespace Reader

variable {α : Type} {text cs : List Char}

/-- A fault in a text: an integer is refused only where there is a long run of digits. -/
def Fault.Long (text : List Char) : Fault → Prop
  | .malformed _ _ => True
  | .range _ => LongRun text

/-- A reader leaves an end of the text, and what it reads from the text satisfies `P`. -/
def Reads (text : List Char) (x : Except Fault (α × List Char)) (P : α → Prop) : Prop :=
  Gives x (fun r => P r.1 ∧ r.2 <:+ text) (Fault.Long text)

theorem suffix_of_cons {c : Char} (h : c :: cs <:+ text) : cs <:+ text :=
  (List.suffix_cons c cs).trans h

theorem skip_suffix (h : cs <:+ text) : skip cs <:+ text :=
  (List.dropWhile_suffix _).trans h

theorem reads_consUnit {x : Except Fault (List Nat × List Char)} (u : Nat)
    (h : Reads text x fun _ => True) : Reads text (consUnit u x) fun _ => True := by
  cases x with
  | ok r => exact h
  | error f => exact h

theorem reads_readUnits (start : List Char) (h : cs <:+ text) :
    Reads text (readUnits start cs) fun _ => True := by
  fun_induction readUnits start cs with
  | case2 rest => exact ⟨trivial, suffix_of_cons h⟩
  | case4 a b c d u next rest _ ih =>
    -- an escape with four digits: six characters are read at once
    exact reads_consUnit u (ih ((List.suffix_append ['\\', 'u', a, b, c, d] _).trans h))
  | case7 c rest _ _ e _ ih => exact reads_consUnit _ (ih (suffix_of_cons (suffix_of_cons h)))
  | case10 c rest _ _ _ _ _ _ ih => exact reads_consUnit _ (ih (suffix_of_cons h))
  | case1 | case3 | case5 | case6 | case8 | case9 => trivial

theorem reads_readText (start : List Char) (h : cs <:+ text) :
    Reads text (readText start cs) fun _ => True := by
  have hunits := reads_readUnits start h
  unfold readText
  cases hread : readUnits start cs with
  | ok r =>
    rw [hread] at hunits
    exact hunits
  | error f =>
    rw [hread] at hunits
    exact hunits

theorem cutWord_suffix {word rest : List Char} (h : cutWord word cs = some rest) : rest <:+ cs := by
  induction word generalizing cs with
  | nil =>
    cases h
    exact List.suffix_refl _
  | cons w ws ih =>
    cases cs with
    | nil => cases h
    | cons c cs =>
      rw [cutWord] at h
      obtain ⟨-, h⟩ := Option.ite_none_right_eq_some.1 h
      exact (ih h).trans (List.suffix_cons _ _)

theorem cutWhole_eq_some {ds rest : List Char} (h : cutWhole cs = some (ds, rest)) :
    ds <:+: cs ∧ (∀ c ∈ ds, isDigit c = true) ∧ rest <:+ cs := by
  unfold cutWhole at h
  split at h
  · cases h
    exact ⟨(List.prefix_append ['0'] _).isInfix, List.forall_mem_singleton.2 (by decide),
      List.suffix_cons _ _⟩
  · split at h
    · cases h
    · next hspan =>
      cases h
      obtain rfl : cs.takeWhile isDigit = ds := congrArg Prod.fst hspan
      exact ⟨(List.takeWhile_prefix _).isInfix, fun c hc => List.mem_takeWhile_imp hc,
        Number.dropDigits_suffix hspan⟩

theorem cutNumber?_eq_some {p : Number.Parts} {rest : List Char}
    (h : cutNumber? cs = some (p, rest)) : p.WholeIn cs ∧ rest <:+ cs := by
  unfold cutNumber? at h
  obtain ⟨⟨whole, behind⟩, hwhole, h⟩ := Option.bind_eq_some_iff.1 h
  obtain ⟨hpart, hdigits, hbehind⟩ := cutWhole_eq_some hwhole
  have hbody := Number.cutMinus_suffix cs
  have hin : whole <:+: cs ∧ ∀ c ∈ whole, isDigit c = true :=
    ⟨hpart.trans hbody.isInfix, hdigits⟩
  dsimp only at h
  split at h
  · next hfraction =>
    have hrest := Number.cutFraction_suffix hfraction
    split at h
    · next hexponent =>
      cases h
      have hlast := Number.cutExponent_suffix hexponent
      exact ⟨⟨hin.1, hin.2⟩, hlast.trans (hrest.trans (hbehind.trans hbody))⟩
    · cases h
      exact ⟨⟨hin.1, hin.2⟩, hrest.trans (hbehind.trans hbody)⟩
  · split at h
    · next hexponent =>
      cases h
      have hlast := Number.cutExponent_suffix hexponent
      exact ⟨⟨hin.1, hin.2⟩, hlast.trans (hbehind.trans hbody)⟩
    · cases h
      exact ⟨⟨hin.1, hin.2⟩, hbehind.trans hbody⟩

theorem not_huge_of_mem_words : ∀ w ∈ words, ¬ w.2.Huge := by
  unfold words
  simp only [List.forall_mem_cons]
  refine ⟨?_, ?_, ?_, ?_, ?_, ?_, List.forall_mem_nil _⟩
  · rintro ⟨⟩
  · rintro ⟨⟩
  · rintro ⟨⟩
  · rintro (h | _ | _)
    exact h
  · rintro (h | _ | _)
    exact h
  · rintro (h | _ | _)
    exact h

/-- A property of data that holds of the words and of the numbers of a text, and of what is put
together from data that have it. -/
structure Inherited (text : List Char) (P : Datum → Prop) : Prop where
  word : ∀ w ∈ words, P w.2
  number : ∀ {p : Number.Parts} {n : Number}, p.WholeIn text → p.toNumber = .ok n → P (.number n)
  text : ∀ s, P (.text s)
  list : ∀ {items : List Datum}, (∀ d ∈ items, P d) → P (.list items)
  object : ∀ {members : List (String × Datum)}, (∀ m ∈ members, P m.2) → P (.object members)

variable {P : Datum → Prop}

theorem reads_readScalar (hP : Inherited text P) (h : cs <:+ text) :
    Reads text (readScalar cs) P := by
  unfold readScalar
  split
  · next r hr =>
    obtain ⟨w, hw, hcut⟩ := List.exists_of_findSome?_eq_some hr
    obtain ⟨rest, hrest, rfl⟩ := Option.map_eq_some_iff.1 hcut
    exact ⟨hP.word w hw, (cutWord_suffix hrest).trans h⟩
  · split
    · next parts rest hcut =>
      obtain ⟨hwhole, hrest⟩ := cutNumber?_eq_some hcut
      have hin := hwhole.mono h.isInfix
      cases hn : parts.toNumber with
      | ok n => exact ⟨hP.number hin hn, hrest.trans h⟩
      | error e =>
        have hnumber := Number.Parts.gives_toNumber hin
        rw [hn] at hnumber
        exact hnumber
    · trivial

mutual

/-- Whatever is read from a text has the properties that are inherited from its numbers. -/
theorem reads_readValue (hP : Inherited text P) : (fuel : Nat) → ∀ {cs : List Char}, cs <:+ text →
    Reads text (readValue fuel cs) P
  | 0, _, _ => trivial
  | fuel + 1, cs, h => by
    unfold readValue
    split
    · refine (reads_readText _ (suffix_of_cons h)).bind ?_
      rintro ⟨s, rest⟩ ⟨-, hrest⟩
      exact ⟨hP.text s, hrest⟩
    · next rest =>
      have hskip := skip_suffix (suffix_of_cons h)
      split
      · next heq =>
        rw [heq] at hskip
        exact ⟨hP.list (List.forall_mem_nil _), suffix_of_cons hskip⟩
      · refine (reads_readItems hP fuel hskip).bind ?_
        rintro ⟨items, rest⟩ ⟨hitems, hrest⟩
        exact ⟨hP.list hitems, hrest⟩
    · next rest =>
      have hskip := skip_suffix (suffix_of_cons h)
      split
      · next heq =>
        rw [heq] at hskip
        exact ⟨hP.object (List.forall_mem_nil _), suffix_of_cons hskip⟩
      · refine (reads_readMembers hP fuel hskip).bind ?_
        rintro ⟨members, rest⟩ ⟨hmembers, hrest⟩
        exact ⟨hP.object hmembers, hrest⟩
    · exact reads_readScalar hP h

theorem reads_readItems (hP : Inherited text P) : (fuel : Nat) → ∀ {cs : List Char}, cs <:+ text →
    Reads text (readItems fuel cs) fun ds => ∀ d ∈ ds, P d
  | 0, _, _ => trivial
  | fuel + 1, cs, h => by
    unfold readItems
    refine (reads_readValue hP fuel h).bind ?_
    rintro ⟨d, rest⟩ ⟨hd, hrest⟩
    have hskip := skip_suffix hrest
    dsimp only
    split
    · next heq =>
      rw [heq] at hskip
      exact ⟨List.forall_mem_singleton.2 hd, suffix_of_cons hskip⟩
    · next heq =>
      rw [heq] at hskip
      refine (reads_readItems hP fuel (skip_suffix (suffix_of_cons hskip))).bind ?_
      rintro ⟨ds, rest⟩ ⟨hds, hrest⟩
      exact ⟨List.forall_mem_cons.2 ⟨hd, hds⟩, hrest⟩
    · trivial

theorem reads_readMembers (hP : Inherited text P) : (fuel : Nat) → ∀ {cs : List Char},
    cs <:+ text → Reads text (readMembers fuel cs) fun ms => ∀ m ∈ ms, P m.2
  | 0, _, _ => trivial
  | fuel + 1, cs, h => by
    unfold readMembers
    split
    · refine (reads_readText _ (suffix_of_cons h)).bind ?_
      rintro ⟨name, rest⟩ ⟨-, hrest⟩
      have hskip := skip_suffix hrest
      dsimp only
      split
      · next heq =>
        rw [heq] at hskip
        refine (reads_readValue hP fuel (skip_suffix (suffix_of_cons hskip))).bind ?_
        rintro ⟨d, rest⟩ ⟨hd, hrest⟩
        have hskip := skip_suffix hrest
        dsimp only
        split
        · next heq =>
          rw [heq] at hskip
          exact ⟨List.forall_mem_singleton.2 hd, suffix_of_cons hskip⟩
        · next heq =>
          rw [heq] at hskip
          refine (reads_readMembers hP fuel (skip_suffix (suffix_of_cons hskip))).bind ?_
          rintro ⟨ms, rest⟩ ⟨hms, hrest⟩
          exact ⟨List.forall_mem_cons.2 ⟨hd, hms⟩, hrest⟩
        · trivial
      · trivial
    · trivial

end

theorem gives_readAll {cs : List Char} (hP : Inherited cs P) :
    Gives (readAll cs) P (Fault.Long cs) := by
  unfold readAll
  split
  · trivial
  · refine (reads_readValue hP _ (skip_suffix (List.suffix_refl cs))).bind ?_
    rintro ⟨d, rest⟩ ⟨hd, -⟩
    dsimp only
    split
    · exact hd
    · trivial

/-- Every integer of more than 308 digits that is read stands in the text. -/
theorem inherited_huge (text : List Char) : Inherited text fun d => d.Huge → LongRun text where
  word w hw hhuge := absurd hhuge (not_huge_of_mem_words w hw)
  number hwhole hn := by
    have hnumber := Number.Parts.gives_toNumber hwhole
    rw [hn] at hnumber
    rintro (hhuge | _ | _)
    exact hnumber hhuge
  text _ := nofun
  list hitems := by
    rintro (_ | ⟨hd, hhuge⟩ | _)
    exact hitems _ hd hhuge
  object hmembers := by
    rintro (_ | _ | ⟨hm, hhuge⟩)
    exact hmembers _ hm hhuge

end Reader

/-- A text without a long run of digits holds no integer of more than 308 digits, and none of its
integers is refused. -/
theorem gives_read (cs : List Char) :
    Gives (read cs) (fun d => d.Huge → LongRun cs) fun e => ∀ r, e = .range r → LongRun cs := by
  have hall := Reader.gives_readAll (Reader.inherited_huge cs)
  unfold read readWritten
  cases hread : Reader.readAll cs with
  | ok d =>
    rw [hread] at hall
    exact fun hhuge => hall (huge_of_settle d hhuge)
  | error f =>
    rw [hread] at hall
    cases f with
    | malformed cause rest => exact nofun
    | range error => exact fun _ _ => hall

end Datum

end Gamebook
