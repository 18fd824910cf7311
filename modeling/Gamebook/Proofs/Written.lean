import Gamebook.Datum.Printer
import Gamebook.Proofs.Fallible
import Gamebook.Proofs.Shortest
import Gamebook.Proofs.Trimming
import Gamebook.Proofs.Utf8

/-!
# Documents read back

A datum that is written on one line is read back as it was written (`readValue_compact`), whatever
follows it.  All undefined numbers are written alike and so become the one that documents denote
(`asWritten`).  Where no object has two members of one name, the document that is read is the datum
itself up to that (`read_compact`).
-/

namespace Gamebook

open Text (documentChar documentQuoted joinWith)

/-! ## Texts -/

namespace Datum.Reader

/-- The four digits of a control character denote its code. -/
theorem unit?_hexDigits {n : Nat} (h : n < 0x20) :
    ∃ a b c d, Numeral.hexDigits 4 n = [a, b, c, d] ∧ unit? a b c d = some n := by
  refine ⟨_, _, _, _, rfl, ?_⟩
  revert n
  decide

/-- Each character of a quoted text is read as its code. -/
theorem readUnits_documentChar (start : List Char) (c : Char) {rest : List Char} (hrest : rest ≠ []) :
    readUnits start (documentChar c ++ rest) = consUnit c.toNat (readUnits start rest) := by
  unfold documentChar
  split
  · next h => subst h; simp [readUnits, escaped?]
  split
  · next h => subst h; simp [readUnits, escaped?]
  split
  · next h => subst h; simp [readUnits, escaped?]
  split
  · next h => subst h; simp [readUnits, escaped?]
  split
  · next h => subst h; simp [readUnits, escaped?]
  split
  · next h => simp [readUnits, escaped?, h]
  split
  · next h => simp [readUnits, escaped?, h]
  split
  · next h =>
    obtain ⟨a, b, x, d, hdigits, hunit⟩ := unit?_hexDigits h
    obtain ⟨r, rest, rfl⟩ := List.exists_cons_of_ne_nil hrest
    rw [hdigits]
    simp [readUnits, hunit]
  · next hquote hslash _ _ _ _ _ hcontrol => 
    rw [List.singleton_append, readUnits.eq_def]
    split <;> simp_all

theorem readUnits_quoted (start : List Char) (cs rest : List Char) :
    readUnits start (cs.flatMap documentChar ++ '"' :: rest) = .ok (cs.map Char.toNat, rest) := by
  induction cs with
  | nil =>
    show readUnits start ('"' :: rest) = _
    simp [readUnits]
  | cons c cs ih =>
    have hne : cs.flatMap documentChar ++ '"' :: rest ≠ [] :=
      List.append_ne_nil_of_right_ne_nil _ (List.cons_ne_nil _ _)
    rw [List.flatMap_cons, List.append_assoc, readUnits_documentChar start c hne, ih]
    rfl

/-- The code of a character is no half of a pair. -/
theorem unpaired (c : Char) : opensPair c.toNat = false ∧ closesPair c.toNat = false := by
  unfold opensPair closesPair
  have hvalid : c.toNat < 0xD800 ∨ 0xDFFF < c.toNat ∧ c.toNat < 0x110000 := c.valid
  simp only [Bool.and_eq_false_iff, decide_eq_false_iff_not]
  omega

theorem ofUnits_codes (cs : List Char) : ofUnits (cs.map Char.toNat) = cs := by
  induction cs with
  | nil => rfl
  | cons c cs ih =>
    obtain ⟨hopens, hcloses⟩ := unpaired c
    have hc : unitChar c.toNat = c := by
      unfold unitChar
      rw [hopens, hcloses]
      exact Char.ofNat_toNat c
    cases cs with
    | nil =>
      show [unitChar c.toNat] = _
      rw [hc]
    | cons d ds =>
      rw [List.map_cons, List.map_cons, ofUnits, hopens, Bool.false_and, if_neg Bool.false_ne_true,
        hc, ← List.map_cons, ih]

/-- Halves of pairs have codes of their own, all others the code of the unit. -/
theorem toNat_unitChar {u : Nat} (h : u < 0x10000) :
    (unitChar u).toNat = if opensPair u || closesPair u then 0x10F800 + (u - 0xD800) else u := by
  have hpaired : (opensPair u || closesPair u) = true ↔ 0xD800 ≤ u ∧ u ≤ 0xDFFF := by
    simp only [opensPair, closesPair, Bool.or_eq_true, Bool.and_eq_true, decide_eq_true_eq]
    omega
  unfold unitChar halfChar
  split
  · next hhalf =>
    have hrange := hpaired.1 hhalf
    exact Text.Utf8.toNat_ofNat (by omega)
  · next hwhole =>
    have hrange := mt hpaired.2 hwhole
    exact Text.Utf8.toNat_ofNat (by omega)

/-- Different code units stand for different characters, also where they are halves of pairs. -/
theorem eq_of_unitChar_eq {u v : Nat} (hu : u < 0x10000) (hv : v < 0x10000)
    (h : unitChar u = unitChar v) : u = v := by
  have hcodes := congrArg Char.toNat h
  rw [toNat_unitChar hu, toNat_unitChar hv] at hcodes
  simp only [opensPair, closesPair, Bool.or_eq_true, Bool.and_eq_true, decide_eq_true_eq] at hcodes
  split at hcodes <;> split at hcodes <;> omega

example : ofUnits [0xD800] ≠ ofUnits [0xDFFF] := by
  decide

/-- A quoted text is read as the text. -/
theorem readText_quoted (start : List Char) (s : String) (rest : List Char) :
    readText start (s.toList.flatMap documentChar ++ '"' :: rest) = .ok (s, rest) := by
  unfold readText
  rw [readUnits_quoted]
  simp only
  rw [ofUnits_codes, String.ofList_toList]

end Datum.Reader

/-! ## Numbers -/

namespace Number

/-- A number as it reads back: all undefined numbers are written alike. -/
def asWritten : Number → Number
  | .float (.undefined _) => .float (.undefined .written)
  | n => n

end Number

namespace Datum.Reader

open Number (EndsNumber Parts)

theorem exists_digit_of_isWhole {ds : List Char} (h : Number.IsWhole ds) :
    ∃ c cs, ds = c :: cs ∧ Numeral.isDigit c = true := by
  rcases h with rfl | ⟨hne, hdigits, -⟩
  · exact ⟨'0', [], rfl, by decide⟩
  · obtain ⟨c, cs, rfl⟩ := List.exists_cons_of_ne_nil hne
    exact ⟨c, cs, rfl, hdigits c List.mem_cons_self⟩

/-- A number begins with a digit, perhaps behind a minus sign. -/
theorem exists_text_eq {p : Parts} (h : p.WellFormed) :
    ∃ c cs, Numeral.isDigit c = true ∧ (p.text = c :: cs ∨ p.text = '-' :: c :: cs) := by
  obtain ⟨c, cs, hwhole, hc⟩ := exists_digit_of_isWhole h.whole
  unfold Parts.text
  rw [hwhole]
  cases p.negative with
  | false => exact ⟨c, _, hc, .inl rfl⟩
  | true => exact ⟨c, _, hc, .inr rfl⟩

/-- No word begins with a digit, also behind a minus sign. -/
theorem findSome?_words_digit {c : Char} (hc : Numeral.isDigit c = true) {cs cs' : List Char}
    (h : cs = c :: cs' ∨ cs = '-' :: c :: cs') :
    words.findSome? (fun w => (cutWord w.1 cs).map (w.2, ·)) = none := by
  have hne : ∀ w, Numeral.isDigit w = false → w ≠ c := fun w hw =>
    (Numeral.ne_of_isDigit hc hw).symm
  have hletter : 'n' ≠ c ∧ 't' ≠ c ∧ 'f' ≠ c ∧ 'N' ≠ c ∧ 'I' ≠ c ∧ '-' ≠ c :=
    ⟨hne _ (by decide), hne _ (by decide), hne _ (by decide), hne _ (by decide), hne _ (by decide),
      hne _ (by decide)⟩
  rcases h with rfl | rfl
  · simp [words, cutWord, hletter]
  · simp [words, cutWord, hletter]

theorem findSome?_words_text {p : Parts} (h : p.WellFormed) (rest : List Char) :
    words.findSome? (fun w => (cutWord w.1 (p.text ++ rest)).map (w.2, ·)) = none := by
  obtain ⟨c, cs, hc, htext⟩ := exists_text_eq h
  have hbegins : p.text ++ rest = c :: (cs ++ rest) ∨ p.text ++ rest = '-' :: c :: (cs ++ rest) := by
    rcases htext with htext | htext <;> simp [htext]
  exact findSome?_words_digit hc hbegins

theorem readScalar_text {n : Number} (hfinite : ∀ x, n = .float x → x.isFinite = true)
    (hlong : n.isTooLong = false) {rest : List Char} (hrest : EndsNumber rest) :
    readScalar (n.text ++ rest) = .ok (.number n, rest) := by
  obtain ⟨p, hwell, htext, hnumber⟩ := Number.exists_parts_text hfinite hlong
  unfold readScalar
  rw [← htext, findSome?_words_text hwell]
  simp only
  rw [Parts.cutNumber?_text hwell hrest]
  simp only
  rw [hnumber]

/-- A number is written in digits, or it is not finite and written as a word. -/
theorem numberText_cases (n : Number) :
    (∃ x, n = .float x ∧ x.isFinite = false) ∨
      (∀ x, n = .float x → x.isFinite = true) ∧ numberText n = n.text ∧ n.asWritten = n := by
  by_cases hfinite : ∀ x, n = .float x → x.isFinite = true
  · refine .inr ⟨hfinite, ?_, ?_⟩
    · unfold numberText
      split
      · cases hfinite _ rfl
      · cases hfinite _ rfl
      · cases hfinite _ rfl
      · rfl
    · unfold Number.asWritten
      split
      · cases hfinite _ rfl
      · rfl
  · obtain ⟨x, hx⟩ := not_forall.1 hfinite
    obtain ⟨hn, hx⟩ := Classical.not_imp.1 hx
    exact .inl ⟨x, hn, Bool.eq_false_iff.2 hx⟩

/-- A number is read back, and undefined numbers as the one that is written. -/
theorem readScalar_numberText {n : Number} (hlong : n.isTooLong = false) {rest : List Char}
    (hrest : EndsNumber rest) :
    readScalar (numberText n ++ rest) = .ok (.number n.asWritten, rest) := by
  rcases numberText_cases n with ⟨x, rfl, hx⟩ | ⟨hfinite, htext, hsame⟩
  · cases x with
    | finite negative grains hrep => cases hx
    | infinite negative => cases negative <;> rfl
    | undefined origin => rfl
  · rw [htext, hsame, readScalar_text hfinite hlong hrest]

end Datum.Reader

/-! ## Values -/

namespace Datum

mutual

/-- A datum as it reads back: all undefined numbers are written alike. -/
def asWritten : Datum → Datum
  | .number n => .number n.asWritten
  | .list items => .list (asWrittenItems items)
  | .object members => .object (asWrittenMembers members)
  | d => d

/-- Each item as it reads back. -/
def asWrittenItems : List Datum → List Datum
  | [] => []
  | d :: ds => asWritten d :: asWrittenItems ds

/-- The value of each member as it reads back. -/
def asWrittenMembers : List (String × Datum) → List (String × Datum)
  | [] => []
  | (k, d) :: ms => (k, asWritten d) :: asWrittenMembers ms

end

namespace Reader

open Number (EndsNumber Parts)

theorem skip_cons {c : Char} (h : isBlank c = false) (cs : List Char) :
    skip (c :: cs) = c :: cs := by
  unfold skip
  rw [List.dropWhile_cons_of_neg (by simp [h])]

/-- What a value begins with: no blank, and nothing that would end a list. -/
def BeginsValue (c : Char) : Prop :=
  isBlank c = false ∧ c ≠ ']' ∧ c ≠ '\ufeff'

instance (c : Char) : Decidable (BeginsValue c) :=
  inferInstanceAs (Decidable (_ ∧ _))

/-- What a word or a number begins with: nothing that is the beginning of another value. -/
def BeginsScalar (c : Char) : Prop :=
  BeginsValue c ∧ c ≠ '"' ∧ c ≠ '[' ∧ c ≠ '\x7b'

instance (c : Char) : Decidable (BeginsScalar c) :=
  inferInstanceAs (Decidable (_ ∧ _))

theorem beginsScalar_of_isDigit {c : Char} (h : Numeral.isDigit c = true) : BeginsScalar c := by
  have hne : ∀ d, Numeral.isDigit d = false → c ≠ d := fun d => Numeral.ne_of_isDigit h
  refine ⟨⟨?_, hne _ (by decide), hne _ (by decide)⟩, hne _ (by decide), hne _ (by decide),
    hne _ (by decide)⟩
  simp only [isBlank, Bool.or_eq_false_iff, decide_eq_false_iff_not]
  exact ⟨⟨⟨hne _ (by decide), hne _ (by decide)⟩, hne _ (by decide)⟩, hne _ (by decide)⟩

theorem exists_numberText_eq {n : Number} (hlong : n.isTooLong = false) :
    ∃ c cs, numberText n = c :: cs ∧ BeginsScalar c := by
  rcases numberText_cases n with ⟨x, rfl, hx⟩ | ⟨hfinite, htext, -⟩
  · cases x with
    | finite negative grains hrep => cases hx
    | infinite negative =>
      cases negative with
      | false => exact ⟨'I', _, rfl, by decide⟩
      | true => exact ⟨'-', _, rfl, by decide⟩
    | undefined origin => exact ⟨'N', _, rfl, by decide⟩
  · obtain ⟨p, hwell, hp, -⟩ := Number.exists_parts_text hfinite hlong
    obtain ⟨c, cs, hc, hcs⟩ := exists_text_eq hwell
    rw [htext, ← hp]
    rcases hcs with hcs | hcs
    · exact ⟨c, cs, hcs, beginsScalar_of_isDigit hc⟩
    · exact ⟨'-', _, hcs, by decide⟩

theorem exists_compact_eq {d : Datum} (hlong : d.hasTooLong = false) :
    ∃ c cs, compact d = c :: cs ∧ BeginsValue c := by
  cases d with
  | null => exact ⟨'n', _, rfl, by decide⟩
  | truth b => cases b <;> exact ⟨_, _, rfl, by decide⟩
  | number n =>
    obtain ⟨c, cs, htext, hc⟩ := exists_numberText_eq hlong
    exact ⟨c, cs, htext, hc.1⟩
  | text s => exact ⟨'"', _, rfl, by decide⟩
  | list items => exact ⟨'[', _, rfl, by decide⟩
  | object members => exact ⟨'\x7b', _, rfl, by decide⟩

theorem skip_compact {d : Datum} (hlong : d.hasTooLong = false) (rest : List Char) :
    skip (compact d ++ rest) = compact d ++ rest := by
  obtain ⟨c, cs, hd, hc⟩ := exists_compact_eq hlong
  rw [hd, List.cons_append, skip_cons hc.1]

theorem readValue_scalar {c : Char} (h : c ≠ '"' ∧ c ≠ '[' ∧ c ≠ '\x7b') (fuel : Nat)
    (cs : List Char) : readValue (fuel + 1) (c :: cs) = readScalar (c :: cs) := by
  obtain ⟨hquote, hlist, hobject⟩ := h
  rw [readValue.eq_def]
  split
  · next heq => cases heq
  · next heq =>
    cases heq
    simp_all

theorem endsNumber_cons {c : Char} (h : Numeral.isDigit c = false ∧ c ≠ '.' ∧ c ≠ 'e' ∧ c ≠ 'E')
    (cs : List Char) : EndsNumber (c :: cs) := by
  rintro _ ⟨⟩
  exact h

theorem documentQuoted_append (cs rest : List Char) :
    documentQuoted cs ++ rest = '"' :: (cs.flatMap documentChar ++ '"' :: rest) := by
  simp [documentQuoted]

theorem readValue_quoted (fuel : Nat) (s : String) (rest : List Char) :
    readValue (fuel + 1) (documentQuoted s.toList ++ rest) = .ok (.text s, rest) := by
  rw [documentQuoted_append, readValue, readText_quoted]
  rfl

theorem exists_fuel {d : Datum} (hlong : d.hasTooLong = false) {fuel : Nat}
    (h : 2 * (compact d).length ≤ fuel) : ∃ k, fuel = k + 1 := by
  obtain ⟨c, cs, hd, -⟩ := exists_compact_eq hlong
  rw [hd, List.length_cons] at h
  exact ⟨fuel - 1, by omega⟩

theorem exists_joinWith_cons (separator t : List Char) (ts : List (List Char)) :
    ∃ behind, joinWith separator (t :: ts) = t ++ behind := by
  cases ts with
  | nil => exact ⟨[], (List.append_nil t).symm⟩
  | cons u us => exact ⟨_, List.append_assoc _ _ _⟩

/-- What the items of a list begin with. -/
theorem exists_compactItems_eq {d : Datum} (hlong : d.hasTooLong = false) (ds : List Datum) :
    ∃ c cs, joinWith [','] (compactItems (d :: ds)) = c :: cs ∧ BeginsValue c := by
  obtain ⟨behind, hjoin⟩ := exists_joinWith_cons [','] (compact d) (compactItems ds)
  obtain ⟨c, cs, hd, hc⟩ := exists_compact_eq hlong
  refine ⟨c, cs ++ behind, ?_, hc⟩
  rw [compactItems, hjoin, hd]
  rfl

/-- What the members of an object begin with. -/
theorem exists_compactMembers_eq (m : String × Datum) (ms : List (String × Datum)) :
    ∃ cs, joinWith [','] (compactMembers (m :: ms)) = '"' :: cs := by
  obtain ⟨behind, hjoin⟩ := exists_joinWith_cons [',']
    (documentQuoted m.1.toList ++ ':' :: compact m.2) (compactMembers ms)
  rw [compactMembers, hjoin, List.append_assoc, documentQuoted_append]
  exact ⟨_, rfl⟩

theorem readValue_bracket {fuel : Nat} {cs cs' rest : List Char} {items : List Datum}
    (hskip : skip cs = cs') (hne : cs'.head? ≠ some ']') (h : readItems fuel cs' = .ok (items, rest)) :
    readValue (fuel + 1) ('[' :: cs) = .ok (.list items, rest) := by
  rw [readValue, hskip]
  split
  · exact absurd rfl hne
  · rw [h]
    rfl

theorem readValue_brace {fuel : Nat} {cs cs' rest : List Char} {members : List (String × Datum)}
    (hskip : skip cs = cs') (hne : cs'.head? ≠ some '\x7d')
    (h : readMembers fuel cs' = .ok (members, rest)) :
    readValue (fuel + 1) ('\x7b' :: cs) = .ok (.object members, rest) := by
  rw [readValue, hskip]
  split
  · exact absurd rfl hne
  · rw [h]
    rfl

theorem readItems_last {fuel : Nat} {cs rest : List Char} {d : Datum}
    (h : readValue fuel cs = .ok (d, ']' :: rest)) :
    readItems (fuel + 1) cs = .ok ([d], rest) := by
  rw [readItems, h, ok_bind]
  simp only
  rw [skip_cons (by decide)]
  rfl

theorem readItems_more {fuel : Nat} {cs rest rest' : List Char} {d : Datum} {ds : List Datum}
    (h : readValue fuel cs = .ok (d, ',' :: rest)) (hskip : skip rest = rest)
    (hs : readItems fuel rest = .ok (ds, rest')) :
    readItems (fuel + 1) cs = .ok (d :: ds, rest') := by
  rw [readItems, h, ok_bind]
  simp only
  rw [skip_cons (by decide)]
  simp only
  rw [hskip, hs]
  rfl

theorem readMembers_last {fuel : Nat} {cs rest : List Char} (k : String) {d : Datum}
    (hskip : skip cs = cs) (h : readValue fuel cs = .ok (d, '\x7d' :: rest)) :
    readMembers (fuel + 1) (documentQuoted k.toList ++ ':' :: cs) = .ok ([(k, d)], rest) := by
  rw [documentQuoted_append, readMembers, readText_quoted, ok_bind]
  simp only
  rw [skip_cons (by decide)]
  simp only
  rw [hskip, h, ok_bind]
  simp only
  rw [skip_cons (by decide)]
  rfl

theorem readMembers_more {fuel : Nat} {cs rest rest' : List Char} (k : String) {d : Datum}
    {ms : List (String × Datum)} (hskip : skip cs = cs)
    (h : readValue fuel cs = .ok (d, ',' :: rest)) (hskip' : skip rest = rest)
    (hs : readMembers fuel rest = .ok (ms, rest')) :
    readMembers (fuel + 1) (documentQuoted k.toList ++ ':' :: cs) = .ok ((k, d) :: ms, rest') := by
  rw [documentQuoted_append, readMembers, readText_quoted, ok_bind]
  simp only
  rw [skip_cons (by decide)]
  simp only
  rw [hskip, h, ok_bind]
  simp only
  rw [skip_cons (by decide)]
  simp only
  rw [hskip', hs]
  rfl

mutual

/-- A value is read back.  The fuel covers the two calls for each bracket. -/
theorem readValue_compact : (d : Datum) → d.hasTooLong = false →
    ∀ {fuel : Nat}, 2 * (compact d).length ≤ fuel → ∀ {rest : List Char}, EndsNumber rest →
    readValue fuel (compact d ++ rest) = .ok (asWritten d, rest)
  | .null, hlong, fuel, hfuel, rest, _ => by
    obtain ⟨fuel, rfl⟩ := exists_fuel hlong hfuel
    rfl
  | .truth b, hlong, fuel, hfuel, rest, _ => by
    obtain ⟨fuel, rfl⟩ := exists_fuel hlong hfuel
    cases b <;> rfl
  | .number n, hlong, fuel, hfuel, rest, hrest => by
    obtain ⟨fuel, rfl⟩ := exists_fuel hlong hfuel
    obtain ⟨c, cs, htext, hc⟩ := exists_numberText_eq hlong
    have hscalar := readScalar_numberText hlong hrest
    rw [compact, htext, List.cons_append, readValue_scalar hc.2, ← List.cons_append, ← htext, hscalar]
    rfl
  | .text s, hlong, fuel, hfuel, rest, _ => by
    obtain ⟨fuel, rfl⟩ := exists_fuel hlong hfuel
    exact readValue_quoted fuel s rest
  | .list [], hlong, fuel, hfuel, rest, _ => by
    obtain ⟨fuel, rfl⟩ := exists_fuel hlong hfuel
    rfl
  | .list (d :: ds), hlong, fuel, hfuel, rest, _ => by
    obtain ⟨fuel, rfl⟩ := exists_fuel hlong hfuel
    have hitems : 2 * (joinWith [','] (compactItems (d :: ds))).length + 1 ≤ fuel := by
      rw [compact, List.length_append, List.length_cons, List.length_singleton] at hfuel
      omega
    have hread := readItems_compact (d :: ds) (List.cons_ne_nil _ _) hlong hitems rest
    have hd : d.hasTooLong = false := (Bool.or_eq_false_iff.1 hlong).1
    obtain ⟨c, cs, hjoin, hc⟩ := exists_compactItems_eq hd ds
    rw [compact, List.cons_append, List.cons_append, List.append_assoc, List.singleton_append]
    rw [hjoin, List.cons_append] at hread ⊢
    exact readValue_bracket (skip_cons hc.1 _) (fun hhead => hc.2.1 (Option.some.inj hhead)) hread
  | .object [], hlong, fuel, hfuel, rest, _ => by
    obtain ⟨fuel, rfl⟩ := exists_fuel hlong hfuel
    rfl
  | .object (m :: ms), hlong, fuel, hfuel, rest, _ => by
    obtain ⟨fuel, rfl⟩ := exists_fuel hlong hfuel
    have hmembers : 2 * (joinWith [','] (compactMembers (m :: ms))).length + 1 ≤ fuel := by
      rw [compact, List.length_append, List.length_cons, List.length_singleton] at hfuel
      omega
    have hread := readMembers_compact (m :: ms) (List.cons_ne_nil _ _) hlong hmembers rest
    obtain ⟨cs, hjoin⟩ := exists_compactMembers_eq m ms
    rw [compact, List.cons_append, List.cons_append, List.append_assoc, List.singleton_append]
    rw [hjoin, List.cons_append] at hread ⊢
    exact readValue_brace (skip_cons (by decide) _) nofun hread

/-- The items of a list are read back up to the bracket. -/
theorem readItems_compact : (items : List Datum) → items ≠ [] → someTooLong items = false →
    ∀ {fuel : Nat}, 2 * (joinWith [','] (compactItems items)).length + 1 ≤ fuel →
    ∀ rest : List Char, readItems fuel (joinWith [','] (compactItems items) ++ ']' :: rest) =
      .ok (asWrittenItems items, rest)
  | [], hne, _, _, _, _ => absurd rfl hne
  | [d], _, hlong, fuel, hfuel, rest => by
    have hd : d.hasTooLong = false := (Bool.or_eq_false_iff.1 hlong).1
    obtain ⟨fuel, rfl⟩ : ∃ k, fuel = k + 1 := ⟨fuel - 1, by omega⟩
    exact readItems_last (readValue_compact d hd (Nat.le_of_succ_le_succ hfuel)
      (endsNumber_cons (by decide) rest))
  | d :: e :: ds, _, hlong, fuel, hfuel, rest => by
    obtain ⟨hd, hes⟩ := Bool.or_eq_false_iff.1 hlong
    obtain ⟨fuel, rfl⟩ : ∃ k, fuel = k + 1 := ⟨fuel - 1, by omega⟩
    have hjoin : joinWith [','] (compactItems (d :: e :: ds)) =
        compact d ++ ',' :: joinWith [','] (compactItems (e :: ds)) := List.append_assoc _ _ _
    rw [hjoin, List.append_assoc, List.cons_append]
    rw [hjoin, List.length_append, List.length_cons] at hfuel
    have hitems : 2 * (joinWith [','] (compactItems (e :: ds))).length + 1 ≤ fuel := by omega
    have hread := readItems_compact (e :: ds) (List.cons_ne_nil _ _) hes hitems rest
    obtain ⟨c, cs, hbegin, hc⟩ := exists_compactItems_eq (Bool.or_eq_false_iff.1 hes).1 ds
    refine readItems_more ?_ ?_ hread
    · exact readValue_compact d hd (by omega) (endsNumber_cons (by decide) _)
    · rw [hbegin]
      exact skip_cons hc.1 _

/-- The members of an object are read back up to the brace. -/
theorem readMembers_compact : (members : List (String × Datum)) → members ≠ [] →
    memberTooLong members = false →
    ∀ {fuel : Nat}, 2 * (joinWith [','] (compactMembers members)).length + 1 ≤ fuel →
    ∀ rest : List Char, readMembers fuel (joinWith [','] (compactMembers members) ++ '\x7d' :: rest) =
      .ok (asWrittenMembers members, rest)
  | [], hne, _, _, _, _ => absurd rfl hne
  | [(k, d)], _, hlong, fuel, hfuel, rest => by
    have hd : d.hasTooLong = false := (Bool.or_eq_false_iff.1 hlong).1
    obtain ⟨fuel, rfl⟩ : ∃ k, fuel = k + 1 := ⟨fuel - 1, by omega⟩
    have hjoin : joinWith [','] (compactMembers [(k, d)]) =
        documentQuoted k.toList ++ ':' :: compact d := rfl
    rw [hjoin, List.append_assoc, List.cons_append]
    rw [hjoin, List.length_append, List.length_cons] at hfuel
    refine readMembers_last k (skip_compact hd _) ?_
    exact readValue_compact d hd (by omega) (endsNumber_cons (by decide) rest)
  | (k, d) :: m :: ms, _, hlong, fuel, hfuel, rest => by
    obtain ⟨hd, hms⟩ := Bool.or_eq_false_iff.1 hlong
    obtain ⟨fuel, rfl⟩ : ∃ k, fuel = k + 1 := ⟨fuel - 1, by omega⟩
    have hjoin : joinWith [','] (compactMembers ((k, d) :: m :: ms)) =
        documentQuoted k.toList ++ ':' :: (compact d ++
          ',' :: joinWith [','] (compactMembers (m :: ms))) := by
      simp [compactMembers, joinWith]
    rw [hjoin, List.append_assoc, List.cons_append, List.append_assoc, List.cons_append]
    rw [hjoin, List.length_append, List.length_cons, List.length_append, List.length_cons] at hfuel
    have hmembers : 2 * (joinWith [','] (compactMembers (m :: ms))).length + 1 ≤ fuel := by omega
    have hread := readMembers_compact (m :: ms) (List.cons_ne_nil _ _) hms hmembers rest
    obtain ⟨cs, hbegin⟩ := exists_compactMembers_eq m ms
    refine readMembers_more k (skip_compact hd _) ?_ ?_ hread
    · exact readValue_compact d hd (by omega) (endsNumber_cons (by decide) _)
    · rw [hbegin]
      exact skip_cons (by decide) _

end

theorem readAll_compact {d : Datum} (hlong : d.hasTooLong = false) :
    readAll (compact d) = .ok (asWritten d) := by
  have hfuel : 2 * (compact d).length ≤ 2 * (compact d).length + 1 := Nat.le_succ _
  have hends : EndsNumber [] := by rintro _ ⟨⟩
  have hvalue := readValue_compact d hlong hfuel hends
  have hskip := skip_compact hlong []
  rw [List.append_nil] at hvalue hskip
  obtain ⟨c, cs, hbegin, hc⟩ := exists_compact_eq hlong
  unfold readAll
  split
  · next heq =>
    rw [hbegin] at heq
    exact absurd (List.cons.inj heq).1 hc.2.2
  · rw [hskip, hvalue]
    rfl

/-- What begins with a brace is an object. -/
theorem exists_object_of_readValue {fuel : Nat} {cs rest : List Char} {d : Datum}
    (h : readValue fuel ('\x7b' :: cs) = .ok (d, rest)) : ∃ ms, d = .object ms := by
  cases fuel with
  | zero => cases h
  | succ fuel =>
    rw [readValue] at h
    split at h
    · cases h
      exact ⟨[], rfl⟩
    · obtain ⟨⟨ms, rest'⟩, -, h⟩ := bind_eq_ok_iff.1 h
      cases h
      exact ⟨ms, rfl⟩

end Reader

/-- A document is a single value with blanks behind it. -/
theorem exists_readValue_of_read {cs : List Char} {d : Datum} (h : read ('\x7b' :: cs) = .ok d) :
    ∃ d' rest, Reader.readValue (2 * ('\x7b' :: cs).length + 1) ('\x7b' :: cs) = .ok (d', rest) ∧
      Reader.skip rest = [] ∧ d'.settle = d := by
  obtain ⟨d', hread, rfl⟩ := map_eq_ok_iff.1 h
  unfold readWritten at hread
  split at hread
  · next d'' hall =>
    cases hread
    obtain ⟨⟨d'', rest⟩, hvalue, hrest⟩ := bind_eq_ok_iff.1 hall
    rw [Reader.skip_cons (by decide)] at hvalue
    simp only at hrest
    split at hrest
    · next hskip =>
      cases hrest
      exact ⟨_, rest, hvalue, hskip, rfl⟩
    · cases hrest
  · cases hread
  · cases hread

theorem exists_object_of_read {cs : List Char} {d : Datum} (h : read ('\x7b' :: cs) = .ok d) :
    ∃ ms, d = .object ms := by
  obtain ⟨d', rest, hvalue, -, rfl⟩ := exists_readValue_of_read h
  obtain ⟨ms, rfl⟩ := Reader.exists_object_of_readValue hvalue
  exact ⟨_, rfl⟩

/-! ## Repeated members -/

theorem putEntry_map {α β : Type} (f : α → β) (name : String) (value : α) (es : List (String × α)) :
    putEntry name (f value) (es.map fun e => (e.1, f e.2)) =
      (putEntry name value es).map fun e => (e.1, f e.2) := by
  induction es with
  | nil => rfl
  | cons e es ih =>
    rw [List.map_cons, putEntry, putEntry, ih]
    split <;> rfl

/-- Which entries are merged depends on their names only. -/
theorem mergeEntries_map {α β : Type} (f : α → β) (es : List (String × α)) :
    mergeEntries (es.map fun e => (e.1, f e.2)) = (mergeEntries es).map fun e => (e.1, f e.2) := by
  have key : ∀ acc : List (String × α),
      (es.map fun e => (e.1, f e.2)).foldl (fun acc e => putEntry e.1 e.2 acc)
        (acc.map fun e => (e.1, f e.2)) =
      (es.foldl (fun acc e => putEntry e.1 e.2 acc) acc).map fun e => (e.1, f e.2) := by
    induction es with
    | nil => exact fun _ => rfl
    | cons e es ih =>
      intro acc
      rw [List.map_cons, List.foldl_cons, List.foldl_cons]
      dsimp only
      rw [putEntry_map, ih]
  exact key []

theorem asWrittenMembers_eq (ms : List (String × Datum)) :
    asWrittenMembers ms = ms.map fun m => (m.1, m.2.asWritten) := by
  induction ms with
  | nil => rfl
  | cons m ms ih => rw [asWrittenMembers, ih, List.map_cons]

mutual

theorem settle_asWritten : (d : Datum) → d.asWritten.settle = d.settle.asWritten
  | .list items => by
    rw [asWritten, settle, settle, asWritten, settleItems_asWritten items]
  | .object members => by
    rw [asWritten, settle, settle, asWritten, settleMembers_asWritten members, asWrittenMembers_eq,
      asWrittenMembers_eq, mergeEntries_map]
  | .null | .truth _ | .number _ | .text _ => rfl

theorem settleItems_asWritten : (ds : List Datum) →
    settleItems (asWrittenItems ds) = asWrittenItems (settleItems ds)
  | [] => rfl
  | d :: ds => by
    rw [asWrittenItems, settleItems, settleItems, asWrittenItems, settle_asWritten d,
      settleItems_asWritten ds]

theorem settleMembers_asWritten : (ms : List (String × Datum)) →
    settleMembers (asWrittenMembers ms) = asWrittenMembers (settleMembers ms)
  | [] => rfl
  | (k, d) :: ms => by
    rw [asWrittenMembers, settleMembers, settleMembers, asWrittenMembers, settle_asWritten d,
      settleMembers_asWritten ms]

end

/-- A document is read back as it was written. -/
theorem readWritten_compact {d : Datum} (hlong : d.hasTooLong = false) :
    readWritten (compact d) = .ok d.asWritten := by
  unfold readWritten
  rw [Reader.readAll_compact hlong]

theorem read_compact {d : Datum} (hlong : d.hasTooLong = false) (hsettled : d.settle = d) :
    read (compact d) = .ok d.asWritten := by
  unfold read
  rw [readWritten_compact hlong]
  show Except.ok d.asWritten.settle = _
  rw [settle_asWritten, hsettled]

theorem putEntry_of_not_mem {α : Type} {name : String} (value : α) {es : List (String × α)}
    (h : name ∉ es.map Prod.fst) : putEntry name value es = es ++ [(name, value)] := by
  induction es with
  | nil => rfl
  | cons e es ih =>
    rw [List.map_cons, List.mem_cons, not_or] at h
    rw [putEntry, if_neg (Ne.symm h.1), ih h.2]
    rfl

/-- Entries with different names are not merged. -/
theorem mergeEntries_of_nodup {α : Type} {es : List (String × α)} (h : (es.map Prod.fst).Nodup) :
    mergeEntries es = es := by
  have key : ∀ acc : List (String × α), ((acc ++ es).map Prod.fst).Nodup →
      es.foldl (fun acc e => putEntry e.1 e.2 acc) acc = acc ++ es := by
    clear h
    induction es with
    | nil => exact fun acc _ => (List.append_nil acc).symm
    | cons e es ih =>
      intro acc hnodup
      have hnot : e.1 ∉ acc.map Prod.fst := by
        rw [List.map_append, List.nodup_append] at hnodup
        exact fun hmem => hnodup.2.2 _ hmem _ List.mem_cons_self rfl
      rw [List.append_cons] at hnodup ⊢
      rw [List.foldl_cons, putEntry_of_not_mem e.2 hnot, ih _ hnodup]
  exact key [] h

theorem settle_object {ms : List (String × Datum)} (hnames : (ms.map Prod.fst).Nodup)
    (h : settleMembers ms = ms) : (object ms).settle = .object ms := by
  rw [settle, h, mergeEntries_of_nodup hnames]

/-! ## Which data are written -/

theorem literal_of_short {d : Datum} (h : d.hasTooLong = false) : d.literal = .ok d.compact := by
  unfold literal
  rw [h]
  rfl

theorem literal_of_tooLong {d : Datum} (h : d.hasTooLong = true) : d.literal = .error .tooLong :=
  if_pos h

theorem literal_eq_ok {d : Datum} {cs : List Char} (h : d.literal = .ok cs) :
    d.hasTooLong = false ∧ d.compact = cs := by
  by_cases hlong : d.hasTooLong = true
  · rw [literal_of_tooLong hlong] at h
    cases h
  · have hshort := Bool.eq_false_iff.2 hlong
    rw [literal_of_short hshort] at h
    exact ⟨hshort, Except.ok.inj h⟩

/-! ## Data that read back unchanged -/

/-- A datum that a document can hold as it is: its integers are written, its numbers are not
undefined unless as documents write them, and no object has two members of one name. -/
structure ReadsBack (d : Datum) : Prop where
  short : d.hasTooLong = false
  written : d.asWritten = d
  settled : d.settle = d

namespace ReadsBack

theorem text (s : String) : (Datum.text s).ReadsBack := ⟨rfl, rfl, rfl⟩

theorem truth (b : Bool) : (Datum.truth b).ReadsBack := ⟨rfl, rfl, rfl⟩

theorem number {n : Number} (hlong : n.isTooLong = false) (hn : n.asWritten = n) :
    (Datum.number n).ReadsBack := ⟨hlong, congrArg Datum.number hn, rfl⟩

theorem list {items : List Datum} (h : ∀ d ∈ items, d.ReadsBack) : (Datum.list items).ReadsBack := by
  have hitems : someTooLong items = false ∧ asWrittenItems items = items ∧
      settleItems items = items := by
    induction items with
    | nil => exact ⟨rfl, rfl, rfl⟩
    | cons d ds ih =>
      obtain ⟨hshort, hwritten, hsettled⟩ := h d List.mem_cons_self
      obtain ⟨hshorts, hwrittens, hsettleds⟩ := ih fun e he => h e (List.mem_cons_of_mem _ he)
      rw [someTooLong, asWrittenItems, settleItems, hshort, hshorts, hwritten, hwrittens, hsettled,
        hsettleds]
      exact ⟨rfl, rfl, rfl⟩
  obtain ⟨hshort, hwritten, hsettled⟩ := hitems
  exact ⟨hshort, congrArg Datum.list hwritten, congrArg Datum.list hsettled⟩

theorem object {members : List (String × Datum)} (hnames : (members.map Prod.fst).Nodup)
    (h : ∀ m ∈ members, m.2.ReadsBack) : (Datum.object members).ReadsBack := by
  have hmembers : memberTooLong members = false ∧ asWrittenMembers members = members ∧
      settleMembers members = members := by
    clear hnames
    induction members with
    | nil => exact ⟨rfl, rfl, rfl⟩
    | cons m ms ih =>
      obtain ⟨k, d⟩ := m
      obtain ⟨hshort, hwritten, hsettled⟩ := h (k, d) List.mem_cons_self
      obtain ⟨hshorts, hwrittens, hsettleds⟩ := ih fun e he => h e (List.mem_cons_of_mem _ he)
      rw [memberTooLong, asWrittenMembers, settleMembers, hshort, hshorts, hwritten, hwrittens,
        hsettled, hsettleds]
      exact ⟨rfl, rfl, rfl⟩
  obtain ⟨hshort, hwritten, hsettled⟩ := hmembers
  exact ⟨hshort, congrArg Datum.object hwritten, settle_object hnames hsettled⟩

variable {d : Datum}

theorem read_compact_eq (h : d.ReadsBack) : read (compact d) = .ok d := by
  rw [read_compact h.short h.settled, h.written]

end ReadsBack

/-- An object begins and ends with a brace, so that it is not trimmed. -/
theorem strip_compact_object (members : List (String × Datum)) :
    Text.strip (compact (.object members)) = compact (.object members) := by
  refine Text.strip_eq_self ?_ ?_
  · rintro c ⟨⟩
    decide
  · intro c hc
    have hlast : (compact (.object members)).getLast? = some '\x7d' := List.getLast?_concat
    rw [hlast] at hc
    obtain rfl := Option.some.inj hc
    decide

end Datum

end Gamebook
