import Gamebook.Proofs.EffectText
import Gamebook.Proofs.NormalCondition

/-!
# Normal texts of effects

The text of an effect that was read from a text does not change when it is read and written again
(`Effect.renderChars_fixed`), and with conditions this makes `rendered_text_is_normal`.

The shorthand of an effect with members joins their texts without quoting them, so it may be cut
elsewhere when it is read.  It is chosen only if what is read agrees with the effect.  Then there are
as many parts between bars as there are members, and every member's text has a part, so each has a
single one.  This part stands for the member only if the text has no bars at all (`Effect.not_barred`),
as one with bars was not written for what is read from its single part.  In the same way a condition
ends at the first question mark (`Effect.eq_of_cut`).  So the members are read from their own texts,
and by induction they have these texts again (`Effect.renderChars_of_agrees`).
-/

namespace Gamebook

open Text (strip stripEnd parts joinWith)
open Condition (Opens)

namespace Effect

/-! ## Shorthand without members -/

theorem ne_verbatim_of_agrees {e f : Effect} (h : f.agrees e = true)
    (he : ∀ s, e ≠ .verbatim s) (s : String) : f ≠ .verbatim s := by
  rintro rfl
  cases e with
  | verbatim t => exact he t rfl
  | _ => cases h

/-- The shorthand of what a text spells has no bar that is not in the text. -/
theorem SpelledIn.bar_not_mem {cs s : List Char} {e : Effect} (h : e.SpelledIn cs)
    (hcs : '|' ∉ cs) (hs : e.shorthand? = some s) : '|' ∉ s := by
  have part : ∀ {t : String}, t.toList <:+: cs → '|' ∉ t.toList := fun ht hmem =>
    hcs (ht.subset hmem)
  cases h with
  | @setFlag key value hkey =>
    obtain rfl := Option.some.inj hs
    have hword : ∀ b, '|' ∉ '=' :: Condition.truthWord b := by decide
    rw [List.mem_append, List.mem_append, not_or, not_or]
    exact ⟨⟨by decide, part hkey⟩, hword value⟩
  | @addResource key delta p hkey hin hdelta =>
    obtain rfl := Option.some.inj hs
    rw [List.mem_append, List.mem_append, List.mem_cons, not_or, not_or, not_or]
    exact ⟨⟨by decide, part hkey⟩, by decide, Number.not_mem_plainText (by decide) delta⟩
  | @setVariable key text hkey htext =>
    obtain rfl := Option.some.inj hs
    rw [List.mem_append, List.mem_append, List.mem_cons, not_or, not_or, not_or]
    exact ⟨⟨by decide, part hkey⟩, by decide, part htext⟩
  | @goto target htarget =>
    obtain rfl := Option.some.inj hs
    rw [List.mem_append, not_or]
    exact ⟨by decide, part htarget⟩

/-- What a text spells has the shorthand of whatever it agrees with. -/
theorem SpelledIn.shorthand?_eq {cs : List Char} {e f : Effect} (hf : f.SpelledIn cs)
    (h : f.agrees e = true) : f.shorthand? = e.shorthand? := by
  cases hf with
  | setFlag hkey =>
    cases e <;> simp only [agrees, Bool.false_eq_true, Bool.and_eq_true, beq_iff_eq] at h
    rw [h.1, h.2]
  | addResource hkey hin hdelta =>
    cases e <;> simp only [agrees, Bool.false_eq_true, Bool.and_eq_true, beq_iff_eq] at h
    obtain ⟨rfl, hdelta⟩ := h
    rw [shorthand?, shorthand?, Number.plainText_eq_of_agrees hdelta]
  | setVariable hkey htext =>
    cases e <;> simp only [agrees, Bool.false_eq_true, Bool.and_eq_true, beq_iff_eq] at h
    obtain ⟨rfl, hvalue⟩ := h
    next value =>
    cases value with
    | text t => rw [eq_of_beq hvalue]
    | number n => cases hvalue
    | truth b => cases hvalue
  | goto htarget =>
    cases e <;> simp only [agrees, Bool.false_eq_true, beq_iff_eq] at h
    rw [h]

theorem spelledIn_of_ofStripped {cs : List Char} {f : Effect} (hform : Form.ofText cs = .simple)
    (h : ofStripped cs = .ok f) (hkept : ∀ s, f ≠ .verbatim s) : f.SpelledIn cs :=
  spelledIn_of_ofShorthand? ((cases_of_simple hform h).resolve_left (hkept _))

/-! ## Objects -/

mutual

/-- The datum of an effect has no repeated members. -/
theorem settle_toDatum : (e : Effect) → e.toDatum.settle = e.toDatum
  | .setFlag .. | .addResource .. | .multiplyResource .. | .setResource .. | .goto _
  | .verbatim _ => rfl
  | .setVariable key value => by cases value <;> rfl
  | .oneOf members => by
    refine Datum.settle_object (by simp) ?_
    simp only [Datum.settleMembers, Datum.settle, settleItems_toData members]
  | .provided condition member => by
    refine Datum.settle_object (by simp) ?_
    simp only [Datum.settleMembers, Datum.settle, settle_toDatum member,
      Condition.settle_toDatum condition]

theorem settleItems_toData : (es : List Effect) → Datum.settleItems (toData es) = toData es
  | [] => rfl
  | e :: es => by
    rw [toData, Datum.settleItems, settle_toDatum e, settleItems_toData es]

end

theorem readsBack_of_asWritten {e : Effect} (h : e.AsWritten)
    (hshort : e.toDatum.hasTooLong = false) : e.toDatum.ReadsBack :=
  ⟨hshort, h, settle_toDatum e⟩

/-- The object of an effect is read as the effect, or kept as its text. -/
theorem ofText_compact_eq_ok {e : Effect} (h : e.AsWritten)
    (hshort : e.toDatum.hasTooLong = false) (hverbatim : ∀ s, e ≠ .verbatim s)
    {r : Option Effect} (hread : ofText e.toDatum.compact = .ok r) :
    r = some e ∨ r = some (.verbatim (String.ofList e.toDatum.compact)) := by
  have hdatum := (readsBack_of_asWritten h hshort).read_compact_eq
  have hsame : ∀ {f}, ofDatum e.toDatum = .ok f → f = e := eq_of_ofDatum_toDatum e
  obtain ⟨ms, hms⟩ := exists_toDatum_eq hverbatim
  rw [hms] at hdatum hsame hread ⊢
  rw [ofText_compact_object hdatum, ofObject_eq] at hread
  obtain ⟨f, hf, rfl⟩ := map_eq_ok_iff.1 hread
  rcases orKept_eq_ok hf with hf | ⟨-, hkept⟩
  · exact .inl (congrArg some (hsame hf))
  · exact .inr (congrArg some (Except.ok.inj hkept).symm)

/-- Text that was kept is the text that it is read from. -/
theorem toList_of_ofStripped {cs : List Char} {s : String} (h : ofStripped cs = .ok (.verbatim s)) :
    s.toList = cs := by
  rcases reading_of_ofStripped h with heq | ⟨hverbatim, -⟩
  · rw [Effect.verbatim.inj heq, String.toList_ofList]
  · exact absurd rfl (hverbatim s)

/-- Text that was kept is read as itself. -/
theorem ofText_verbatim {t : List Char} {s : String} (h : ofText t = .ok (some (.verbatim s))) :
    ofText s.toList = .ok (some (.verbatim s)) := by
  rw [toList_of_ofStripped (ofText_eq_ok h), ofText_strip, h]

/-! ## Single parts -/

/-- Where a form has bars behind its beginning but a single part, the part ends in front of the first
bar. -/
theorem exists_of_parts_eq {beginning body p : List Char} {first last : Char}
    (hopens : Opens beginning first last) (hbeginning : '|' ∉ beginning)
    (hp : parts '|' (beginning ++ body) = [p]) (hmem : '|' ∈ beginning ++ body) :
    ∃ a b, body = a ++ '|' :: b ∧ '|' ∉ a ∧ parts '|' b = [] ∧ p = beginning ++ stripEnd a := by
  have hbody := (List.mem_append.1 hmem).resolve_left hbeginning
  obtain ⟨a, b, rfl, ha⟩ := List.eq_append_cons_of_mem hbody
  have hfront : parts '|' (beginning ++ a) = [beginning ++ stripEnd a] := by
    have hne : beginning ++ stripEnd a ≠ [] := by
      obtain ⟨rest, rfl⟩ := List.head?_eq_some_iff.1 hopens.head
      exact List.cons_ne_nil _ _
    rw [Text.parts_of_not_mem, hopens.strip_append, if_neg hne]
    rw [List.mem_append, not_or]
    exact ⟨hbeginning, ha⟩
  rw [← List.append_assoc, Text.parts_append, hfront, List.singleton_append] at hp
  obtain ⟨heq, hb⟩ := List.cons.inj hp
  exact ⟨a, b, rfl, ha, hb, heq.symm⟩

/-- An object with bars in it has more than one part. -/
theorem parts_compact_object_ne {ms : List (String × Datum)} (hmem : '|' ∈ (Datum.object ms).compact)
    (p : List Char) : parts '|' (Datum.object ms).compact ≠ [p] := by
  obtain ⟨inner, hinner⟩ : ∃ inner, (Datum.object ms).compact = '\x7b' :: inner ++ ['\x7d'] :=
    ⟨_, rfl⟩
  rw [hinner] at hmem ⊢
  have hbar : '|' ∈ inner := by simpa using hmem
  obtain ⟨a, b, rfl, -⟩ := List.eq_append_cons_of_mem hbar
  have hfront : parts '|' ('\x7b' :: a) ≠ [] :=
    Text.parts_ne_nil List.mem_cons_self (by decide) (by decide)
  have hend : parts '|' (b ++ ['\x7d']) ≠ [] :=
    Text.parts_ne_nil (List.mem_append_right _ (List.mem_singleton_self _)) (by decide) (by decide)
  have hcut : '\x7b' :: (a ++ '|' :: b) ++ ['\x7d'] = ('\x7b' :: a) ++ '|' :: (b ++ ['\x7d']) := by
    simp
  rw [hcut, Text.parts_append]
  intro h
  have hlength := congrArg List.length h
  have hpos := List.length_pos_iff.2 hfront
  have hpos' := List.length_pos_iff.2 hend
  rw [List.length_append, List.length_singleton] at hlength
  omega

/-! ## Members -/

/-- An effect is applied inside of another. -/
inductive IsMember : Effect → Effect → Prop where
  | ofOneOf {e : Effect} {members : List Effect} (h : e ∈ members) : IsMember e (.oneOf members)
  | ofProvided {condition : Condition} {member : Effect} :
    IsMember member (.provided condition member)

theorem IsMember.wellFounded : WellFounded IsMember := by
  refine Subrelation.wf (r := fun e f => sizeOf e < sizeOf f) ?_ (measure sizeOf).wf
  intro e f h
  cases h with
  | ofOneOf h =>
    have hlt := List.sizeOf_lt_of_mem h
    simp only [oneOf.sizeOf_spec]
    omega
  | ofProvided =>
    simp only [provided.sizeOf_spec]
    omega

theorem renderEach_eq_mapM (es : List Effect) : renderEach es = es.mapM renderChars := by
  induction es with
  | nil => rfl
  | cons e es ih => rw [renderEach, ih, List.mapM_cons]

theorem renderEach_eq_ok_iff {es : List Effect} {ts : List (List Char)} :
    renderEach es = .ok ts ↔ List.Forall₂ (fun e t => e.renderChars = .ok t) es ts := by
  rw [renderEach_eq_mapM, mapM_eq_ok_iff]

theorem agreesEach_iff {es fs : List Effect} :
    agreesEach es fs = true ↔ List.Forall₂ (fun e f => e.agrees f = true) es fs := by
  induction es generalizing fs with
  | nil => cases fs <;> simp [agreesEach, List.forall₂_nil_left_iff]
  | cons e es ih => cases fs <;> simp [agreesEach, ih, List.forall₂_cons]

theorem ofStripped_of_ofText_append {beginning body : List Char} {first last : Char} {f : Effect}
    (hopens : Opens beginning first last) (h : ofText (beginning ++ body) = .ok (some f)) :
    ofStripped (beginning ++ stripEnd body) = .ok f := by
  rw [← hopens.strip_append]
  exact ofText_eq_ok h

/-- The members of a random effect are read from the parts of a text. -/
theorem mapM_of_random {body : List Char} {fs : List Effect}
    (h : ofStripped ("randomEffect:".toList ++ stripEnd body) = .ok (.oneOf fs)) :
    (parts '|' body).mapM ofStripped = .ok fs := by
  have hform : Form.ofText ("randomEffect:".toList ++ stripEnd body) = .random (stripEnd body) := rfl
  rcases cases_of_random hform h with hkept | ⟨read, hread, heq⟩
  · cases hkept
  · cases heq
    rwa [Text.parts_stripEnd (by decide)] at hread

/-- A conditional effect is read from what is in front of and behind the first question mark. -/
theorem exists_of_conditional {body : List Char} {d : Condition} {m : Effect}
    (h : ofStripped ("conditionalEffect:".toList ++ stripEnd body) = .ok (.provided d m)) :
    ∃ a b, body = a ++ '?' :: b ∧ '?' ∉ a ∧ Condition.ofText a = .ok (some d) ∧
      ofText b = .ok (some m) := by
  have hform : Form.ofText ("conditionalEffect:".toList ++ stripEnd body) =
      .conditional (stripEnd body) := rfl
  rcases cases_of_conditional hform h with hkept | ⟨a, effect, d', m', hcut, hd, hm, heq⟩
  · cases hkept
  · cases heq
    obtain ⟨b, rfl, ha, rfl⟩ := Text.exists_of_cutAt?_stripEnd (by decide) hcut
    rw [← ofText_strip, Text.strip_stripEnd, ofText_strip] at hm
    exact ⟨a, b, rfl, ha, hd, hm⟩

/-- The first question mark that a condition is read up to is the one behind its text. -/
theorem eq_of_cut {c d : Condition} {text parts a b : List Char} (ha : '?' ∉ a)
    (hrender : c.renderChars = .ok text) (hread : Condition.ofText a = .ok (some d))
    (hagrees : d.agrees c = true) (h : text ++ '?' :: parts = a ++ '?' :: b) :
    text = a ∧ parts = b := by
  have htext : '?' ∉ text := by
    intro hmem
    obtain ⟨x, y, rfl, hx⟩ := List.eq_append_cons_of_mem hmem
    rw [List.append_assoc, List.cons_append] at h
    have hcut := Text.cutAt?_append hx (y ++ '?' :: parts)
    rw [h, Text.cutAt?_append ha] at hcut
    cases hcut
    rw [Condition.not_agrees_of_beginning hx hrender hread] at hagrees
    cases hagrees
  have hcut := Text.cutAt?_append htext parts
  rw [h, Text.cutAt?_append ha] at hcut
  cases hcut
  exact ⟨rfl, rfl⟩

/-! ## Bars in texts -/

/-- The text of an effect has bars but a single part, and what the part is read as agrees with the
effect. -/
structure Barred (e f : Effect) (t p : List Char) : Prop where
  render : e.renderChars = .ok t
  single : parts '|' t = [p]
  read : ofStripped p = .ok f
  agree : f.agrees e = true
  bar : '|' ∈ t

namespace Barred

variable {e f : Effect} {t p : List Char}

theorem not_mem_part (h : Barred e f t p) : '|' ∉ p :=
  (Text.mem_parts (h.single ▸ List.mem_singleton_self p)).1

theorem shorthand?_ne (h : Barred e f t p) : e.shorthand? ≠ some t := by
  intro hs
  obtain ⟨beginning, first, last, body, rfl, hopens, hbeginning, hform⟩ :=
    exists_opens_of_shorthand? hs
  obtain ⟨a, b, -, -, -, rfl⟩ := exists_of_parts_eq hopens hbeginning h.single h.bar
  have hkept := ne_verbatim_of_agrees h.agree (Spells.simple hs).ne_verbatim
  have hspelled := spelledIn_of_ofStripped (hform _) h.read hkept
  exact hspelled.bar_not_mem h.not_mem_part ((hspelled.shorthand?_eq h.agree).trans hs) h.bar

/-- A random effect is read from what is in front of the first bar as one with a single member. -/
theorem random {members : List Effect} {texts : List (List Char)} (hmembers : members ≠ [])
    (htexts : renderEach members = .ok texts)
    (h : Barred (.oneOf members) f ("randomEffect:".toList ++ joinWith ['|'] texts) p) :
    ∃ m g u q, m ∈ members ∧ Barred m g u q := by
  obtain ⟨a, b, hjoin, ha, hb, rfl⟩ := exists_of_parts_eq opens_random (by decide) h.single h.bar
  cases f with
  | oneOf fs =>
    have hread := mapM_eq_ok_iff.1 (mapM_of_random h.read)
    have hagree := agreesEach_iff.1 h.agree
    have htexts := renderEach_eq_ok_iff.1 htexts
    rw [Text.parts_of_not_mem ha] at hread
    split at hread
    · cases hread
      cases hagree
      exact absurd rfl hmembers
    · next hne =>
      obtain _ | ⟨hf, ⟨⟩⟩ := hread
      obtain _ | ⟨hfe, ⟨⟩⟩ := hagree
      obtain _ | ⟨htext, ⟨⟩⟩ := htexts
      rw [joinWith] at hjoin
      subst hjoin
      have hparts : parts '|' (a ++ '|' :: b) = [strip a] := by
        rw [Text.parts_append, hb, List.append_nil, Text.parts_of_not_mem ha, if_neg hne]
      exact ⟨_, _, _, _, List.mem_singleton_self _, htext, hparts, hf, hfe,
        List.mem_append_right _ List.mem_cons_self⟩
  | _ => cases h.agree

/-- A conditional effect is cut at the same question mark, so the first bar is in its member. -/
theorem conditional {condition : Condition} {member : Effect} {text body : List Char}
    (htext : condition.renderChars = .ok text) (hbody : member.renderChars = .ok body)
    (h : Barred (.provided condition member) f
      ("conditionalEffect:".toList ++ text ++ '?' :: body) p) :
    ∃ g q, Barred member g body q := by
  obtain ⟨hrender, hsingle, hread, hagree, hbar⟩ := h
  rw [List.append_assoc] at hsingle hbar
  obtain ⟨a, b, hfront, ha, hb, rfl⟩ := exists_of_parts_eq opens_conditional (by decide) hsingle hbar
  cases f with
  | provided d m =>
    obtain ⟨hdc, hm⟩ := (Bool.and_eq_true _ _).mp hagree
    obtain ⟨x, y, rfl, hx, hd, hmember⟩ := exists_of_conditional hread
    rw [List.append_assoc, List.cons_append] at hfront
    obtain ⟨rfl, rfl⟩ := eq_of_cut hx htext hd hdc hfront
    have hy : '|' ∉ y := fun hy => ha (List.mem_append_right _ (List.mem_cons_of_mem _ hy))
    obtain ⟨hne, hmember⟩ := ofText_eq_ok_iff.1 hmember
    have hparts : parts '|' (y ++ '|' :: b) = [strip y] := by
      rw [Text.parts_append, hb, List.append_nil, Text.parts_of_not_mem hy, if_neg hne]
    exact ⟨m, strip y, hbody, hparts, hmember, hm, List.mem_append_right _ List.mem_cons_self⟩
  | _ => cases hagree

/-- Where the text of an effect has such bars, so has the text of one of its members. -/
theorem exists_member (h : Barred e f t p) : ∃ m g u q, IsMember m e ∧ Barred m g u q := by
  cases rendered_of_renderChars h.render with
  | @verbatim text =>
    cases f with
    | verbatim s =>
      obtain rfl : s = text := eq_of_beq h.agree
      have hbar := h.bar
      rw [toList_of_ofStripped h.read] at hbar
      exact absurd hbar h.not_mem_part
    | _ => cases h.agree
  | object hverbatim hshort =>
    obtain ⟨ms, hms⟩ := exists_toDatum_eq hverbatim
    have hbar := h.bar
    have hsingle := h.single
    rw [hms] at hbar hsingle
    exact absurd hsingle (parts_compact_object_ne hbar p)
  | shorthand _ hs _ _ =>
    cases hs with
    | simple hs => exact absurd hs h.shorthand?_ne
    | random hmembers htexts =>
      obtain ⟨m, g, u, q, hm, hbarred⟩ := h.random hmembers htexts
      exact ⟨m, g, u, q, .ofOneOf hm, hbarred⟩
    | conditional htext hbody =>
      obtain ⟨g, q, hbarred⟩ := h.conditional htext hbody
      exact ⟨_, g, _, q, .ofProvided, hbarred⟩

end Barred

/-- Where the text of an effect has a single part, and the part stands for the effect, there are no
bars in the text: otherwise some member would have such a text, and a member of that member. -/
theorem not_barred (e : Effect) : ∀ f t p, ¬ Barred e f t p := by
  induction e using IsMember.wellFounded.induction with
  | _ e ih =>
    intro f t p h
    obtain ⟨m, g, u, q, hm, hbarred⟩ := h.exists_member
    exact ih m hm g u q hbarred

/-! ## Normal form -/

theorem Spells.parts_ne_nil {e : Effect} {s : List Char} (hs : e.Spells s) : parts '|' s ≠ [] := by
  cases hs with
  | simple hs =>
    obtain ⟨beginning, first, last, body, rfl, hopens, hbar, -⟩ := exists_opens_of_shorthand? hs
    have hfirst : first ∈ beginning := List.mem_of_head? hopens.head
    exact Text.parts_ne_nil (List.mem_append_left _ hfirst) hopens.first_blank
      fun heq => hbar (heq ▸ hfirst)
  | random hmembers htexts =>
    exact Text.parts_ne_nil (c := 'r') List.mem_cons_self (by decide) (by decide)
  | conditional htext hparts =>
    exact Text.parts_ne_nil (c := 'c') List.mem_cons_self (by decide) (by decide)

/-- The text of an effect has a part if a part of some text stands for the effect. -/
theorem parts_ne_nil_of_agrees {e f : Effect} {t p cs : List Char} (hrender : e.renderChars = .ok t)
    (hp : p ∈ parts '|' cs) (hread : ofStripped p = .ok f) (hagrees : f.agrees e = true) :
    parts '|' t ≠ [] := by
  cases rendered_of_renderChars hrender with
  | @verbatim text =>
    cases f with
    | verbatim s =>
      obtain rfl : s = text := eq_of_beq hagrees
      rw [toList_of_ofStripped hread, Text.parts_of_mem_parts hp]
      exact List.cons_ne_nil _ _
    | _ => cases hagrees
  | object hverbatim hshort =>
    obtain ⟨ms, hms⟩ := exists_toDatum_eq hverbatim
    rw [hms]
    exact Text.parts_ne_nil (c := '\x7b') List.mem_cons_self (by decide) (by decide)
  | shorthand _ hs _ _ => exact hs.parts_ne_nil

section

variable {es fs : List Effect} {ts ps : List (List Char)} {cs : List Char}

theorem parts_ne_nil_of_agreesEach
    (hrender : List.Forall₂ (fun e t => e.renderChars = .ok t) es ts)
    (hread : ∀ f ∈ fs, ∃ p ∈ parts '|' cs, ofStripped p = .ok f)
    (hagrees : List.Forall₂ (fun f e => f.agrees e = true) fs es) : ∀ t ∈ ts, parts '|' t ≠ [] := by
  induction hrender generalizing fs with
  | nil => exact List.forall_mem_nil _
  | cons he _ ih =>
    obtain _ | ⟨hfe, hagrees⟩ := hagrees
    obtain ⟨⟨p, hp, hf⟩, hread⟩ := List.forall_mem_cons.1 hread
    exact List.forall_mem_cons.2 ⟨parts_ne_nil_of_agrees he hp hf hfe, ih hread hagrees⟩

/-- What is read from the single part of a text is read from the text. -/
theorem ofText_of_parts {e f : Effect} {t p : List Char} (hrender : e.renderChars = .ok t)
    (hp : parts '|' t = [p]) (hread : ofStripped p = .ok f) (hagrees : f.agrees e = true) :
    ofText t = .ok (some f) := by
  have hbar : '|' ∉ t := fun hmem => not_barred e f t p ⟨hrender, hp, hread, hagrees, hmem⟩
  rw [Text.parts_of_not_mem hbar] at hp
  split at hp
  · cases hp
  · next hne =>
    cases hp
    exact ofText_eq_ok_iff.2 ⟨hne, hread⟩

theorem forall₂_ofText (hrender : List.Forall₂ (fun e t => e.renderChars = .ok t) es ts)
    (hparts : List.Forall₂ (fun t p => parts '|' t = [p]) ts ps)
    (hread : List.Forall₂ (fun p f => ofStripped p = .ok f) ps fs)
    (hagrees : List.Forall₂ (fun f e => f.agrees e = true) fs es) :
    List.Forall₂ (fun t f => ofText t = .ok (some f)) ts fs := by
  induction hrender generalizing ps fs with
  | nil =>
    cases hagrees
    exact .nil
  | cons he _ ih =>
    obtain _ | ⟨hp, hparts⟩ := hparts
    obtain _ | ⟨hf, hread⟩ := hread
    obtain _ | ⟨hfe, hagrees⟩ := hagrees
    exact .cons (ofText_of_parts he hp hf hfe) (ih hparts hread hagrees)

/-- The members of a random effect are read from their own texts. -/
theorem ofText_of_oneOf (hrender : List.Forall₂ (fun e t => e.renderChars = .ok t) es ts)
    (hread : ofText ("randomEffect:".toList ++ joinWith ['|'] ts) = .ok (some (.oneOf fs)))
    (hagrees : List.Forall₂ (fun f e => f.agrees e = true) fs es) :
    List.Forall₂ (fun t f => ofText t = .ok (some f)) ts fs := by
  have hmapped := mapM_of_random (ofStripped_of_ofText_append opens_random hread)
  have hne := parts_ne_nil_of_agreesEach hrender (exists_of_mem_mapM hmapped) hagrees
  rw [Text.parts_joinWith] at hmapped
  have hreads := mapM_eq_ok_iff.1 hmapped
  -- there are as many parts as texts, so no text has been cut
  have hlength : (ts.flatMap (parts '|')).length = ts.length := by
    rw [hreads.length_eq, hagrees.length_eq, hrender.length_eq]
  exact forall₂_ofText hrender (Text.forall₂_flatMap hne (Nat.le_of_eq hlength)) hreads hagrees

/-- The condition and the member of a conditional effect are read from their own texts. -/
theorem ofText_of_provided {c d : Condition} {m : Effect} {text body : List Char}
    (htext : c.renderChars = .ok text)
    (hread : ofText ("conditionalEffect:".toList ++ text ++ '?' :: body) =
      .ok (some (.provided d m)))
    (hagrees : d.agrees c = true) :
    Condition.ofText text = .ok (some d) ∧ ofText body = .ok (some m) := by
  rw [List.append_assoc] at hread
  obtain ⟨a, b, hcut, ha, hd, hm⟩ :=
    exists_of_conditional (ofStripped_of_ofText_append opens_conditional hread)
  obtain ⟨rfl, rfl⟩ := eq_of_cut ha htext hd hagrees hcut
  exact ⟨hd, hm⟩

theorem renderEach_of_agrees
    (hfix : ∀ e ∈ es, ∀ {t f}, e.renderChars = .ok t → ofText t = .ok (some f) →
      f.agrees e = true → f.renderChars = .ok t)
    (hrender : List.Forall₂ (fun e t => e.renderChars = .ok t) es ts)
    (hread : List.Forall₂ (fun t f => ofText t = .ok (some f)) ts fs)
    (hagrees : List.Forall₂ (fun f e => f.agrees e = true) fs es) :
    List.Forall₂ (fun f t => f.renderChars = .ok t) fs ts := by
  induction hrender generalizing fs with
  | nil =>
    cases hagrees
    exact .nil
  | cons he _ ih =>
    obtain _ | ⟨hf, hread⟩ := hread
    obtain _ | ⟨hfe, hagrees⟩ := hagrees
    obtain ⟨hfirst, hfix⟩ := List.forall_mem_cons.1 hfix
    exact .cons (hfirst he hf hfe) (ih hfix hread hagrees)

end

/-- What the text of an effect is read as has the same text, if it agrees with the effect. -/
theorem renderChars_of_agrees {e f : Effect} {s : List Char} (hwritten : e.AsWritten)
    (hrender : e.renderChars = .ok s) (hread : ofText s = .ok (some f))
    (hagrees : f.agrees e = true) : f.renderChars = .ok s := by
  induction e using IsMember.wellFounded.induction generalizing f s with
  | _ e ih =>
    have hself := agrees_left f e hagrees
    have hshort := short_of_agrees f e hagrees (short_of_renderChars hrender)
    cases rendered_of_renderChars hrender with
    | @verbatim text =>
      cases f with
      | verbatim t =>
        obtain rfl : t = text := eq_of_beq hagrees
        exact hrender
      | _ => cases hagrees
    | object hverbatim hwritable =>
      rcases ofText_compact_eq_ok hwritten hwritable hverbatim hread with heq | heq
      · obtain rfl := Option.some.inj heq
        exact hrender
      · obtain rfl := Option.some.inj heq
        exact absurd rfl (ne_verbatim_of_agrees hagrees hverbatim _)
    | shorthand _ hs _ _ =>
      have hkept := ne_verbatim_of_agrees hagrees hs.ne_verbatim
      cases hs with
      | simple hs =>
        obtain ⟨beginning, first, last, body, rfl, hopens, -, hform⟩ :=
          exists_opens_of_shorthand? hs
        have hstripped := ofStripped_of_ofText_append hopens hread
        have hspelled := spelledIn_of_ofStripped (hform _) hstripped hkept
        have hs' := Spells.simple ((hspelled.shorthand?_eq hagrees).trans hs)
        exact hs'.renderChars_eq_ok hshort hread hself
      | @random members texts hmembers htexts =>
        cases f with
        | oneOf fs =>
          have hagree := agreesEach_iff.1 hagrees
          have htexts := renderEach_eq_ok_iff.1 htexts
          have hfs : fs ≠ [] := by
            rintro rfl
            cases hagree
            exact hmembers rfl
          have hrenders := renderEach_of_agrees
            (fun e he => ih e (.ofOneOf he) (asWritten_oneOf.1 hwritten e he)) htexts
            (ofText_of_oneOf htexts hread hagree) hagree
          have hs' := Spells.random hfs (renderEach_eq_ok_iff.2 hrenders)
          exact hs'.renderChars_eq_ok hshort hread hself
        | _ => cases hagrees
      | @conditional condition member text body htext hbody =>
        cases f with
        | provided d m =>
          obtain ⟨hcondition, hmember⟩ := asWritten_provided.1 hwritten
          obtain ⟨hdc, hm⟩ := (Bool.and_eq_true _ _).mp hagrees
          obtain ⟨hd, hread'⟩ := ofText_of_provided htext hread hdc
          have htext' := Condition.renderChars_of_agrees hcondition htext hd hdc
          have hbody' := ih member .ofProvided hmember hbody hread' hm
          have hs' := Spells.conditional htext' hbody'
          exact hs'.renderChars_eq_ok hshort hread hself
        | _ => cases hagrees

/-- The text of an effect that was read from a text has that text again. -/
theorem renderChars_fixed {t s : List Char} {e : Effect} {r : Option Effect}
    (he : ofText t = .ok (some e)) (hrender : e.renderChars = .ok s) (hread : ofText s = .ok r) :
    ∃ f, r = some f ∧ f.renderChars = .ok s := by
  have hwritten := asWritten_of_ofText he
  cases rendered_of_renderChars hrender with
  | @verbatim text =>
    rw [ofText_verbatim he] at hread
    obtain rfl := Except.ok.inj hread
    exact ⟨_, rfl, hrender⟩
  | object hverbatim hshort =>
    rcases ofText_compact_eq_ok hwritten hshort hverbatim hread with rfl | rfl
    · exact ⟨e, rfl, hrender⟩
    · refine ⟨_, rfl, ?_⟩
      rw [renderChars, String.toList_ofList]
  | shorthand _ _ hread' hagrees =>
    obtain rfl := Except.ok.inj (hread.symm.trans hread')
    exact ⟨_, rfl, renderChars_of_agrees hwritten hrender hread' hagrees⟩

end Effect

/-! ## Saving again -/

/-- What was read from a text is written as a text that is not changed any more by reading it and
writing what was read, whatever it is read as, as long as it can be read. -/
theorem rendered_text_is_normal :
    (∀ {t s : String} {c : Condition} {r : Option Condition},
      Condition.ofTextOrObject (.text t) = .ok (some c) → c.render = .ok s →
      Condition.ofTextOrObject (.text s) = .ok r → ∃ d, r = some d ∧ d.render = .ok s) ∧
    (∀ {t s : String} {e : Effect} {r : Option Effect},
      Effect.ofTextOrObject (.text t) = .ok (some e) → e.render = .ok s →
      Effect.ofTextOrObject (.text s) = .ok r → ∃ f, r = some f ∧ f.render = .ok s) := by
  constructor
  · intro t s c r hc hrender hread
    obtain ⟨cs, hcs, rfl⟩ := map_eq_ok_iff.1 hrender
    rw [Condition.ofTextOrObject, String.toList_ofList] at hread
    obtain ⟨d, rfl, hd⟩ := Condition.renderChars_fixed hc hcs hread
    exact ⟨d, rfl, map_eq_ok_iff.2 ⟨cs, hd, rfl⟩⟩
  · intro t s e r he hrender hread
    obtain ⟨cs, hcs, rfl⟩ := map_eq_ok_iff.1 hrender
    rw [Effect.ofTextOrObject, String.toList_ofList] at hread
    obtain ⟨f, rfl, hf⟩ := Effect.renderChars_fixed he hcs hread
    exact ⟨f, rfl, map_eq_ok_iff.2 ⟨cs, hf, rfl⟩⟩

/-- An amount in a test, and a flag that is set during a time window. -/
theorem rendered_text_is_normal_legacy :
    (Condition.ofTextOrObject (.text " resource:gold = 5") =
        .ok (some (.resourceIs "gold" .equal (.int 5))) ∧
      (Condition.resourceIs "gold" .equal (.int 5)).render = .ok "resource:gold==5" ∧
      ∃ d, Condition.ofTextOrObject (.text "resource:gold==5") = .ok (some d) ∧
        d.render = .ok "resource:gold==5") ∧
    (Effect.ofTextOrObject (.text "conditionalEffect:time:1-2 ? setFlag:open=1") =
        .ok (some (.provided (.during (.int 1) (.int 2)) (.setFlag "open" true))) ∧
      (Effect.provided (.during (.int 1) (.int 2)) (.setFlag "open" true)).render =
        .ok "conditionalEffect:timeWindow:1-2?setFlag:open=true" ∧
      ∃ f, Effect.ofTextOrObject (.text "conditionalEffect:timeWindow:1-2?setFlag:open=true") =
          .ok (some f) ∧
        f.render = .ok "conditionalEffect:timeWindow:1-2?setFlag:open=true") := by
  constructor
  · have hread : Condition.ofTextOrObject (.text " resource:gold = 5") =
        .ok (some (.resourceIs "gold" .equal (.int 5))) := by rfl
    have hagain : Condition.ofText "resource:gold==5".toList =
        .ok (some (.resourceIs "gold" .equal (.int 5))) := by rfl
    have hchars := Condition.renderChars_of_shorthand (c := .resourceIs "gold" .equal (.int 5))
      (by decide +kernel) (by decide +kernel) hagain (by decide +kernel)
    have hrender : (Condition.resourceIs "gold" .equal (.int 5)).render = .ok "resource:gold==5" :=
      map_eq_ok_iff.2 ⟨_, hchars, rfl⟩
    obtain ⟨d, hd, hfixed⟩ :=
      rendered_text_is_normal.1 (s := "resource:gold==5") hread hrender hagain
    exact ⟨hread, hrender, d, hd ▸ hagain, hfixed⟩
  · have hlegacy : Effect.ofText " setFlag:open=1".toList = .ok (some (.setFlag "open" true)) :=
      Effect.ofText_of_simple (by decide) rfl rfl
    have htime : Condition.ofText "time:1-2 ".toList = .ok (some (.during (.int 1) (.int 2))) := by
      rfl
    have hread : Effect.ofText "conditionalEffect:time:1-2 ? setFlag:open=1".toList =
        .ok (some (.provided (.during (.int 1) (.int 2)) (.setFlag "open" true))) :=
      Effect.ofText_of_conditional (p := "time:1-2 ? setFlag:open=1".toList) rfl rfl htime hlegacy
    have hflag : Effect.ofText "setFlag:open=true".toList = .ok (some (.setFlag "open" true)) :=
      Effect.ofText_of_simple (by decide) rfl rfl
    have hwindow : Condition.ofText "timeWindow:1-2".toList =
        .ok (some (.during (.int 1) (.int 2))) := by rfl
    have hagain : Effect.ofText "conditionalEffect:timeWindow:1-2?setFlag:open=true".toList =
        .ok (some (.provided (.during (.int 1) (.int 2)) (.setFlag "open" true))) :=
      Effect.ofText_of_conditional (p := "timeWindow:1-2?setFlag:open=true".toList) rfl rfl hwindow
        hflag
    have htext := Condition.renderChars_of_shorthand (c := .during (.int 1) (.int 2))
      (by decide +kernel) (by decide +kernel) hwindow (by decide +kernel)
    have hparts := (Effect.Spells.simple rfl).renderChars_eq_ok (e := .setFlag "open" true) rfl hflag
      rfl
    have hchars := (Effect.Spells.conditional htext hparts).renderChars_eq_ok (by decide +kernel)
      hagain (by decide +kernel)
    have hrender : (Effect.provided (.during (.int 1) (.int 2)) (.setFlag "open" true)).render =
        .ok "conditionalEffect:timeWindow:1-2?setFlag:open=true" :=
      map_eq_ok_iff.2 ⟨_, hchars, rfl⟩
    obtain ⟨f, hf, hfixed⟩ :=
      rendered_text_is_normal.2 (t := "conditionalEffect:time:1-2 ? setFlag:open=1") hread hrender
        hagain
    exact ⟨hread, hrender, f, hf ▸ hagain, hfixed⟩

end Gamebook
