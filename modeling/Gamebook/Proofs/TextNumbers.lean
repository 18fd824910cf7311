import Gamebook.Proofs.ConditionText

/-!
# Numbers that texts spell

What is read from a text is written as a datum, and the datum is read as the same condition or effect
exactly if its numbers are finite (`datum_of_text_reads_back`).  They are, unless there are more than
308 consecutive digits in the text (`Condition.ranged_of_ofText`, `Effect.ranged_of_ofText`).

The shorthand takes any digits, while an object with a number out of range is refused, so such a text
is read and what was read is refused as a datum (`huge_test_refused_as_datum`).
-/

namespace Gamebook

open Numeral (LongRun isDigit)
open Text (strip stripEnd)

/-! ## Decimals -/

namespace Number

theorem isFinite_of_not_huge {n : Int} (h : ¬ (Number.int n).Huge) :
    (Number.int n).isFinite = .ok true := by
  obtain ⟨g, hrep, hn⟩ := Binary64.ofQuotient_in_range (decide (n < 0)) (Nat.lt_of_not_le h)
  rw [isFinite, toBinary64, Binary64.ofInt?, hn]
  rfl

theorem digits_of_spanDigits {cs ds rest : List Char}
    (h : Numeral.spanDigits cs = (ds, rest)) : ∀ c ∈ ds, isDigit c = true := by
  obtain rfl : cs.takeWhile isDigit = ds := congrArg Prod.fst h
  exact fun c hc => List.mem_takeWhile_imp hc

/-- Digits with an optional fraction have no exponent, and digits on both sides of the point. -/
theorem Parts.digits_of_ofDigits? {negative : Bool} {cs : List Char} {p : Parts}
    (h : Parts.ofDigits? negative cs = some p) :
    p.exponent = none ∧ ∀ c ∈ p.whole ++ p.fraction.getD [], isDigit c = true := by
  have hwhole := (wholeIn_of_ofDigits? h).digits
  unfold ofDigits? at h
  split at h
  · cases h
  · cases h
    rw [Option.getD_none, List.append_nil]
    exact ⟨rfl, hwhole⟩
  · split at h
    · next hcut =>
      cases h
      refine ⟨rfl, List.forall_mem_append.2 ⟨hwhole, ?_⟩⟩
      unfold cutFraction at hcut
      split at hcut
      · split at hcut
        · cases hcut
        · next hspan =>
          cases hcut
          exact digits_of_spanDigits hspan
      · cases hcut
    · cases h

/-- A number without a long run of digits in front of its point is finite. -/
theorem Parts.isFinite_of_toNumber {negative : Bool} {cs : List Char} {p : Parts} {n : Number}
    (h : Parts.ofDigits? negative cs = some p) (hn : p.toNumber = .ok n) :
    n.isFinite = .ok true ∨ LongRun cs := by
  have hwhole := wholeIn_of_ofDigits? h
  by_cases hlength : 308 < p.whole.length
  · exact .inr ⟨p.whole, hwhole.isInfix, hlength, hwhole.digits⟩
  have hhuge := gives_toNumber hwhole
  rw [hn] at hhuge
  unfold toNumber at hn
  split at hn
  · obtain ⟨i, -, rfl⟩ := map_eq_ok_iff.1 hn
    by_cases hi : (Number.int i).Huge
    · exact .inr (hhuge hi)
    · exact .inl (isFinite_of_not_huge hi)
  · cases hn
    obtain ⟨hexponent, hdigits⟩ := digits_of_ofDigits? h
    have hpow : 10 ^ (p.whole ++ p.fraction.getD []).length ≤
        10 ^ (308 + (p.fraction.getD []).length) := by
      rw [List.length_append]
      exact Nat.pow_le_pow_right (by decide) (by omega)
    refine .inl (congrArg Except.ok ?_)
    unfold toBinary64
    rw [hexponent]
    simp only [Option.getD_none, Int.zero_sub]
    exact Binary64.isFinite_ofDecimal _ (Nat.lt_of_lt_of_le (Numeral.value_lt hdigits) hpow)

end Number

/-! ## Ranges -/

/-- Numbers that were read from a text: one that is not finite is due to a long run of digits. -/
def Ranged (text : List Char) (ns : List Number) : Prop :=
  ∀ n ∈ ns, n.isFinite = .ok true ∨ LongRun text

namespace Ranged

variable {as bs : List Char} {ns ms : List Number}

theorem mono (h : Ranged as ns) (hab : as <:+: bs) : Ranged bs ns :=
  fun n hn => (h n hn).imp_right fun hrun => hrun.mono hab

theorem nil : Ranged as [] := List.forall_mem_nil _

theorem cons {n : Number} (hn : n.isFinite = .ok true ∨ LongRun as) (h : Ranged as ns) :
    Ranged as (n :: ns) :=
  List.forall_mem_cons.2 ⟨hn, h⟩

theorem append (hns : Ranged as ns) (hms : Ranged as ms) : Ranged as (ns ++ ms) :=
  List.forall_mem_append.2 ⟨hns, hms⟩

theorem of_finite (h : ∀ n ∈ ns, n.isFinite = .ok true) : Ranged as ns :=
  fun n hn => .inl (h n hn)

theorem finite (h : Ranged as ns) (hrun : ¬ LongRun as) : ∀ n ∈ ns, n.isFinite = .ok true :=
  fun n hn => (h n hn).resolve_right hrun

theorem of_ofDigits? {negative : Bool} {p : Number.Parts} {n : Number}
    (h : Number.Parts.ofDigits? negative as = some p) (hn : p.toNumber = .ok n) :
    Ranged as [n] :=
  cons (Number.Parts.isFinite_of_toNumber h hn) nil

theorem of_ofPlain? {p : Number.Parts} {n : Number}
    (h : Number.Parts.ofPlain? as = some p) (hn : p.toNumber = .ok n) : Ranged as [n] :=
  (of_ofDigits? h hn).mono (Number.cutMinus_suffix as).isInfix

end Ranged

/-! ## Conditions -/

namespace Condition

theorem WellFormed.finite {c : Condition} (h : c.WellFormed) :
    ∀ n ∈ c.numbers, n.isFinite = .ok true := by
  induction h with
  | flagIs | variableIs | verbatim => exact List.forall_mem_nil _
  | resourceIs _ hvalue => exact List.forall_mem_singleton.2 hvalue
  | during hstart hstop => exact List.forall_mem_cons.2 ⟨hstart, List.forall_mem_singleton.2 hstop⟩
  | allOf _ ih | anyOf _ ih =>
    intro n hn
    obtain ⟨c, hc, hn⟩ := mem_numbersOfAll.1 hn
    exact ih c hc n hn
  | negation _ ih => exact ih

theorem numbers_of_ofVariable? {cs : List Char} {c : Condition} (h : ofVariable? cs = some c) :
    c.numbers = [] := by
  unfold ofVariable? at h
  split at h
  · cases h
  · obtain ⟨-, heq⟩ := Option.ite_none_left_eq_some.1 h
    cases heq
    rfl

theorem ranged_of_ofWindow? {cs : List Char} {c : Condition} (h : ofWindow? cs = .ok (some c)) :
    Ranged cs c.numbers := by
  unfold ofWindow? at h
  split at h
  · cases h
  · next hcut =>
    obtain ⟨hstart, hstop⟩ := Text.cutAt?_isInfix hcut
    split at h
    · next ha hb =>
      obtain ⟨start, hstartn, h⟩ := bind_eq_ok_iff.1 h
      obtain ⟨stop, hstopn, h⟩ := bind_eq_ok_iff.1 h
      cases h
      exact ((Ranged.of_ofDigits? ha hstartn).mono hstart).append
        ((Ranged.of_ofDigits? hb hstopn).mono hstop)
    · cases h

theorem ranged_of_ofResource? {cs : List Char} {c : Condition}
    (h : ofResource? cs = .ok (some c)) : Ranged cs c.numbers := by
  unfold ofResource? at h
  dsimp only at h
  split at h
  · cases h
  · next relation rest hcut =>
    have hrest := (cutRelation?_suffix hcut).trans (List.dropWhile_suffix _)
    split at h
    · cases h
    · split at h
      · cases h
      · next parts hparts =>
        obtain ⟨value, hvalue, h⟩ := bind_eq_ok_iff.1 h
        obtain ⟨-, heq⟩ := Option.ite_none_left_eq_some.1 (Except.ok.inj h)
        cases heq
        exact (Ranged.of_ofPlain? hparts hvalue).mono
          ((Text.strip_isInfix rest).trans hrest.isInfix)

theorem ranged_of_ofShorthand? {cs : List Char} {c : Condition}
    (h : ofShorthand? cs = .ok (some c)) : Ranged cs c.numbers := by
  obtain ⟨form, hform, hread⟩ := exists_of_findSomeM? h
  split at hread
  · next rest hrest =>
    have hpart := Text.dropPrefix?_isInfix hrest
    simp only [forms, List.mem_cons, List.not_mem_nil, or_false] at hform
    rcases hform with rfl | rfl | rfl | rfl | rfl
    · exact (ranged_of_ofWindow? hread).mono hpart
    · exact (ranged_of_ofWindow? hread).mono hpart
    · obtain ⟨_, -, rfl⟩ := Option.map_eq_some_iff.1 (Except.ok.inj hread)
      exact .nil
    · exact (ranged_of_ofResource? hread).mono hpart
    · rw [numbers_of_ofVariable? (Except.ok.inj hread)]
      exact .nil
  · cases hread

theorem ranged_of_ofText {cs : List Char} {c : Condition} (h : ofText cs = .ok (some c)) :
    Ranged cs c.numbers := by
  refine Ranged.mono ?_ (Text.strip_isInfix cs)
  have h := ofText_eq_ok h
  unfold ofStripped at h
  split at h
  · split at h
    · rw [ofObject_eq] at h
      rcases orKept_eq_ok h with hd | ⟨-, hkept⟩
      · exact .of_finite (wellFormed_of_ofDatum _ hd).finite
      · obtain rfl := Except.ok.inj hkept
        exact .nil
    · cases h
      exact .nil
    · cases h
  · obtain ⟨r, hr, heq⟩ := bind_eq_ok_iff.1 h
    cases r with
    | none =>
      cases heq
      exact .nil
    | some d =>
      cases heq
      exact ranged_of_ofShorthand? hr

end Condition

/-! ## Effects -/

namespace Effect

theorem WellFormed.finite {e : Effect} (h : e.WellFormed) :
    ∀ n ∈ e.numbers, n.isFinite = .ok true := by
  induction h with
  | setFlag | setVariable | goto | verbatim => exact List.forall_mem_nil _
  | addResource _ hnumber | multiplyResource _ hnumber | setResource _ hnumber =>
    exact List.forall_mem_singleton.2 hnumber
  | oneOf _ ih =>
    intro n hn
    obtain ⟨e, he, hn⟩ := mem_numbersOfAll.1 hn
    exact ih e he n hn
  | provided hcondition _ ih => exact List.forall_mem_append.2 ⟨hcondition.finite, ih⟩

theorem ranged_of_ofShorthand? {cs : List Char} {e : Effect}
    (h : ofShorthand? cs = .ok (some e)) : Ranged cs e.numbers := by
  obtain ⟨form, hform, hread⟩ := Condition.exists_of_findSomeM? h
  split at hread
  · next rest hrest =>
    have hpart := Text.dropPrefix?_isInfix hrest
    simp only [forms, List.mem_cons, List.not_mem_nil, or_false] at hform
    rcases hform with rfl | rfl | rfl | rfl
    · obtain ⟨_, -, rfl⟩ := Option.map_eq_some_iff.1 (Except.ok.inj hread)
      exact .nil
    · change ofAddResource? rest = _ at hread
      unfold ofAddResource? at hread
      split at hread
      · cases hread
      · next key line hassign =>
        obtain ⟨front, hcut⟩ := Condition.exists_cutAt?_of_cutAssignment? hassign
        split at hread
        · cases hread
        · next hparts =>
          obtain ⟨delta, hdelta, hread⟩ := bind_eq_ok_iff.1 hread
          cases hread
          have hline := (Text.cutAt?_isInfix hcut).2
          exact (Ranged.of_ofPlain? hparts hdelta).mono (hline.trans hpart)
    · obtain ⟨_, -, rfl⟩ := Option.map_eq_some_iff.1 (Except.ok.inj hread)
      exact .nil
    · obtain ⟨-, heq⟩ := Option.ite_none_left_eq_some.1 (Except.ok.inj hread)
      cases heq
      exact .nil
  · cases hread

/-- The numbers of members are read from parts of the text, so the induction is on its length. -/
theorem ranged_of_ofStripped {cs : List Char} {e : Effect} (h : ofStripped cs = .ok e) :
    Ranged cs e.numbers := by
  induction hn : cs.length using Nat.strong_induction_on generalizing cs e with
  | _ n ih =>
    subst hn
    cases readAs_of_ofStripped h with
    | kept => exact .nil
    | object hd => exact .of_finite (wellFormed_of_ofDatum _ hd).finite
    | shorthand hread => exact ranged_of_ofShorthand? hread
    | oneOf hmembers =>
      intro n hn
      obtain ⟨e, he, hn⟩ := mem_numbersOfAll.1 hn
      obtain ⟨p, hp, hpe⟩ := hmembers e he
      exact (ih _ hp.shorter hpe rfl).mono hp.isInfix n hn
    | provided htext hcondition hp hmember =>
      have hnumbers := (Condition.ranged_of_ofText hcondition).mono htext
      exact hnumbers.append ((ih _ hp.shorter hmember rfl).mono hp.isInfix)

theorem ranged_of_ofText {cs : List Char} {e : Effect} (h : ofText cs = .ok (some e)) :
    Ranged cs e.numbers :=
  (ranged_of_ofStripped (ofText_eq_ok h)).mono (Text.strip_isInfix cs)

end Effect

/-! ## Texts and data -/

/-- What was read from a text reads back from its datum exactly if its numbers are finite, and always
does if the text has no long run of digits. -/
theorem datum_of_text_reads_back (text : List Char) :
    (∀ c, Condition.ofText text = .ok (some c) →
      (Condition.ofDatum c.toDatum = .ok c ↔ ∀ n ∈ c.numbers, n.isFinite = .ok true) ∧
      (¬ LongRun text → Condition.ofDatum c.toDatum = .ok c)) ∧
    (∀ e, Effect.ofText text = .ok (some e) →
      (Effect.ofDatum e.toDatum = .ok e ↔ ∀ n ∈ e.numbers, n.isFinite = .ok true) ∧
      (¬ LongRun text → Effect.ofDatum e.toDatum = .ok e)) := by
  constructor
  · intro c hc
    have hback := fun hfinite => Condition.ofDatum_toDatum (Condition.wellFormed_of_ofText hc hfinite)
    refine ⟨⟨fun h => (Condition.wellFormed_of_ofDatum _ h).finite, hback⟩, fun hrun => ?_⟩
    exact hback ((Condition.ranged_of_ofText hc).finite hrun)
  · intro e he
    have hreading := Effect.reading_of_ofStripped (Effect.ofText_eq_ok he)
    have hback := fun hfinite => Effect.ofDatum_toDatum (hreading.wellFormed hfinite)
    refine ⟨⟨fun h => (Effect.wellFormed_of_ofDatum _ h).finite, hback⟩, fun hrun => ?_⟩
    exact hback ((Effect.ranged_of_ofText he).finite hrun)

theorem datum_of_text_reads_back_short :
    Condition.ofText "resource:gold>=12".toList =
      .ok (some (.resourceIs "gold" .atLeast (.int 12))) ∧
    Condition.ofDatum (Condition.toDatum (.resourceIs "gold" .atLeast (.int 12))) =
      .ok (.resourceIs "gold" .atLeast (.int 12)) ∧
    Effect.ofText "addResource:gold=-3".toList = .ok (some (.addResource "gold" (.int (-3)))) ∧
    Effect.ofDatum (Effect.toDatum (.addResource "gold" (.int (-3)))) =
      .ok (.addResource "gold" (.int (-3))) := by
  have hshort : ∀ cs : List Char, cs.length ≤ 308 → ¬ LongRun cs := by
    rintro cs hcs ⟨run, hrun, hlength, -⟩
    have hle := hrun.length_le
    omega
  have hc : Condition.ofText "resource:gold>=12".toList =
      .ok (some (.resourceIs "gold" .atLeast (.int 12))) := by rfl
  have he : Effect.ofText "addResource:gold=-3".toList =
      .ok (some (.addResource "gold" (.int (-3)))) := by
    have hread : Effect.ofShorthand? "addResource:gold=-3".toList =
        .ok (some (.addResource "gold" (.int (-3)))) := by rfl
    have hstrip : strip "addResource:gold=-3".toList = "addResource:gold=-3".toList := by decide
    unfold Effect.ofText
    dsimp only
    rw [hstrip, Effect.ofStripped_simple rfl, hread]
    rfl
  refine ⟨hc, ?_, he, ?_⟩
  · exact ((datum_of_text_reads_back _).1 _ hc).2 (hshort _ (by decide))
  · exact ((datum_of_text_reads_back _).2 _ he).2 (hshort _ (by decide))

/-! ### An integer out of range -/

namespace Condition

/-- A test of a resource that is written with digits only. -/
theorem ofResource?_digits {ds : List Char} (hne : ds ≠ []) (hdigits : ∀ c ∈ ds, isDigit c = true)
    (hlength : ds.length ≤ Numeral.maxDigits) :
    ofResource? ("gold>=".toList ++ ds) =
      .ok (some (.resourceIs "gold" .atLeast (.int (Numeral.value ds)))) := by
  have hstrip : strip ds = ds :=
    Text.strip_of_forall fun c hc => Number.isBlank_of_isNumeralChar (.inl (hdigits c hc))
  have hline : ds.contains '\n' = false := by
    refine Bool.eq_false_iff.2 fun h => ?_
    exact absurd (hdigits _ (List.contains_iff_mem.1 h)) (by decide)
  have hspan : Numeral.spanDigits ds = (ds, []) := by
    have happend : Numeral.spanDigits (ds ++ []) = (ds, []) :=
      Numeral.spanDigits_append hdigits nofun
    rwa [List.append_nil] at happend
  have hplain : Number.Parts.ofPlain? ds = some { negative := false, whole := ds } := by
    have hminus : Number.cutMinus ds = (false, ds) := by
      refine Number.cutMinus_signText false fun h => ?_
      exact absurd (hdigits _ (List.mem_of_mem_head? h)) (by decide)
    obtain ⟨c, cs, rfl⟩ := List.exists_cons_of_ne_nil hne
    simp only [Number.Parts.ofPlain?, hminus, Number.Parts.ofDigits?, hspan]
  have hnumber : Number.Parts.toNumber { negative := false, whole := ds } =
      .ok (.int (Numeral.value ds)) := by
    show (Number.Parts.toInt { negative := false, whole := ds }).map Number.int = _
    unfold Number.Parts.toInt
    rw [if_neg (Nat.not_lt.2 hlength)]
    rfl
  have hkey : ("gold>=".toList ++ ds).takeWhile (!endsKey ·) = "gold".toList := by rfl
  have hrest : ("gold>=".toList ++ ds).dropWhile (!endsKey ·) = ">=".toList ++ ds := by rfl
  have hcut : cutRelation? (">=".toList ++ ds) = some (.atLeast, ds) := by rfl
  unfold ofResource?
  rw [hkey, hrest, hcut]
  simp only [hline, hstrip, hplain, hnumber]
  rfl

theorem ofText_digits {ds : List Char} (hne : ds ≠ []) (hdigits : ∀ c ∈ ds, isDigit c = true)
    (hlength : ds.length ≤ Numeral.maxDigits) :
    ofText ("resource:gold>=".toList ++ ds) =
      .ok (some (.resourceIs "gold" .atLeast (.int (Numeral.value ds)))) := by
  have hbody : stripEnd ("gold>=".toList ++ ds) = "gold>=".toList ++ ds := by
    refine Text.stripEnd_eq_self fun c hc => ?_
    rw [List.getLast?_append_of_ne_nil _ hne] at hc
    exact Number.isBlank_of_isNumeralChar (.inl (hdigits c (List.mem_of_mem_getLast? hc)))
  have happend := ofText_append opens_resource ("gold>=".toList ++ ds)
  rw [hbody, ofShorthand?_resource, ofResource?_digits hne hdigits hlength] at happend
  exact happend

theorem ofDatum_resourceIs {key : String} (hkey : key ≠ "") (relation : Relation) {value : Number}
    {error : RangeError} (h : value.isFinite = .error error) :
    ofDatum (toDatum (.resourceIs key relation value)) = .error (.range error) := by
  simp only [toDatum, ofDatum, Datum.memberOrNull_cons, ↓reduceIte, relationOf, Tagged.key,
    Tagged.number, Tagged.require, Datum.member?_cons, String.reduceEq, Relation.ofSign?_sign, ok_bind,
    hkey, h]
  rfl

end Condition

/-- A test of a resource with an integer out of range. -/
def hugeTest : List Char :=
  "resource:gold>=".toList ++ Numeral.digits (10 ^ 400)

theorem huge_test_refused_as_datum :
    ∃ c, Condition.ofText hugeTest = .ok (some c) ∧
      Condition.ofDatum c.toDatum = .error (.range .tooLarge) := by
  have hlength : (Numeral.digits (10 ^ 400)).length ≤ Numeral.maxDigits := by
    have hten : 10 ^ 400 < 10 ^ 401 := Nat.pow_lt_pow_right (by decide) (by decide)
    exact Nat.le_trans (Numeral.length_digits_le (by decide) hten) (by decide)
  have hhuge : 2 ^ 1025 ≤ 10 ^ 400 := Binary64.two_pow_le_ten_pow (by decide)
  unfold hugeTest
  generalize 10 ^ 400 = n at *
  have hread := Condition.ofText_digits (Numeral.digits_ne_nil n) Numeral.isDigit_of_mem_digits hlength
  rw [Numeral.value_digits] at hread
  have hrange := Number.isFinite_of_le (n := (n : Int)) (by rwa [Int.natAbs_natCast])
  exact ⟨_, hread, Condition.ofDatum_resourceIs (by decide) _ hrange⟩

end Gamebook
