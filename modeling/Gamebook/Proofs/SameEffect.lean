import Gamebook.Effect.Apply
import Gamebook.Proofs.Goto
import Gamebook.Proofs.UndefinedValue

/-!
# Effects that do the same

What is read from the text of an effect does the same as the effect, whatever the state and the dice
(`Effect.rendered_effect_does_the_same`), with one exception: the shorthand writes a whole floating
point number like an integer, and adding that integer to an integer gives an integer
(`Effect.gold_piece_becomes_integer`).

`Like` relates an effect to what is read from its text, and is built along the effect: by reading
back the shorthand of an effect without members (`like_of_shorthand?`), reading an object
(`like_asWritten`), and from members and conditions, which are read from their own texts
(`like_of_agrees`).
-/

namespace Gamebook

/-! ## Numbers -/

namespace Number

/-- A whole floating point number is the one nearest to its integer, or the negative zero. -/
theorem ofInt?_of_toInt? {x : Binary64} {k : Int} (h : x.toInt? = some k) :
    ∃ y, Binary64.ofInt? k = some y ∧ (x = y ∨ x = .zero true ∧ y = .zero false) := by
  cases x with
  | infinite s => cases h
  | undefined origin => cases h
  | finite s g hg =>
    rw [Binary64.toInt?] at h
    obtain ⟨hmod, hk⟩ := Option.ite_none_right_eq_some.1 h
    obtain rfl := Option.some.inj hk
    have hgrains : g / Binary64.one * Binary64.one = g :=
      Nat.div_mul_cancel (Nat.dvd_of_mod_eq_zero hmod)
    have hnearest : Binary64.nearest g 1 = g := by
      simpa using Binary64.nearest_mul Nat.one_pos hg.1
    have hofInt : Binary64.ofInt? (Binary64.signedGrains s (g / Binary64.one)) =
        some (.finite (decide (Binary64.signedGrains s (g / Binary64.one) < 0)) g hg) := by
      rw [Binary64.ofInt?, natAbs_signedGrains, hgrains, Binary64.ofQuotient, hnearest,
        Binary64.ofGrains, dif_pos hg]
      rfl
    refine ⟨_, hofInt, ?_⟩
    generalize g / Binary64.one = q at hgrains
    rcases Nat.eq_zero_or_pos q with rfl | hpos
    · -- the zero of an integer has no sign
      rw [Nat.zero_mul] at hgrains
      subst hgrains
      cases s with
      | false => exact .inl rfl
      | true => exact .inr ⟨rfl, rfl⟩
    · have hsign : decide (Binary64.signedGrains s q < 0) = s := by
        unfold Binary64.signedGrains
        cases s <;> simp; omega
      rw [hsign]
      exact .inl rfl

/-- To a floating point number, a whole one adds what its integer adds, unless both are the negative
zero. -/
theorem add_whole (y : Binary64) {x : Binary64} {k : Int} (h : x.toInt? = some k) :
    (Number.float y).add (.float x) = (Number.float y).add (.int k) ∨
      y = .zero true ∧ x = .zero true := by
  obtain ⟨x', hx', hsame⟩ := ofInt?_of_toInt? h
  have hint : (Number.float y).add (.int k) = .ok (.float (y.add x')) := by
    simp only [add, combine, toBinary64, hx', Option.elim_some, ok_bind, pure_eq_ok]
  rw [hint]
  rcases hsame with rfl | ⟨rfl, rfl⟩
  · exact .inl rfl
  · cases y with
    | finite s g hg =>
      have hplus : ∀ t, Binary64.signedGrains s g + Binary64.signedGrains t 0 =
          Binary64.signedGrains s g := by
        intro t
        cases t <;> exact Int.add_zero _
      have hadd : ∀ t, (Number.float (.finite s g hg)).add (.float (.zero t)) =
          .ok (.float ((Binary64.finite s g hg).add (.zero t))) := fun _ => rfl
      rw [hadd]
      simp only [Binary64.add, Binary64.zero, hplus]
      rcases Nat.eq_zero_or_pos g with rfl | hpos
      · cases s with
        | false =>
          left
          simp only [Bool.false_and]
        | true => exact .inr ⟨rfl, trivial⟩
      · left
        have hsum : Binary64.signedGrains s g ≠ 0 := by
          unfold Binary64.signedGrains
          split <;> omega
        simp only [if_neg hsum]
    | infinite s => exact .inl rfl
    | undefined origin => exact .inl rfl

theorem asWritten_asWritten (n : Number) : n.asWritten.asWritten = n.asWritten := by
  cases n with
  | int k => rfl
  | float x => cases x <;> rfl

theorem point_not_mem_ofInt (k : Int) : '.' ∉ Numeral.ofInt k := by
  have digits : ∀ n, '.' ∉ Numeral.digits n := fun n hmem =>
    absurd (Numeral.isDigit_of_mem_digits _ hmem) (by decide)
  cases k with
  | ofNat n => exact digits n
  | negSucc n =>
    intro hmem
    rcases List.mem_cons.1 hmem with heq | hmem
    · revert heq
      decide
    · exact digits _ hmem

/-- What is read without a point is an integer. -/
theorem isInt_of_ofPlain? {cs : List Char} {p : Parts} (h : Parts.ofPlain? cs = some p)
    (hpoint : '.' ∉ cs) : p.isInt = true := by
  have hbody : '.' ∉ (cutMinus cs).2 := by
    unfold cutMinus
    split
    · exact fun hmem => hpoint (List.mem_cons_of_mem _ hmem)
    · exact hpoint
  replace h : Parts.ofDigits? (cutMinus cs).1 (cutMinus cs).2 = some p := h
  unfold Parts.ofDigits? at h
  split at h
  · cases h
  · obtain rfl := Option.some.inj h
    rfl
  · next whole rest _ _ hspan =>
    have hrest : '.' ∉ rest := by
      have hdrop : (cutMinus cs).2.dropWhile Numeral.isDigit = rest := congrArg Prod.snd hspan
      exact fun hmem => hbody ((List.dropWhile_suffix _).subset (hdrop ▸ hmem))
    split at h
    · next hcut =>
      unfold cutFraction at hcut
      split at hcut
      · exact absurd List.mem_cons_self hrest
      · cases hcut
    · cases h

end Number

/-! ## Outcomes -/

/-- Two outcomes are the same but for the origin of undefined numbers in variables. -/
structure Applied.Same (a b : Applied) : Prop where
  flags : a.draft.flags = b.draft.flags
  resources : a.draft.resources = b.draft.resources
  vars : a.draft.vars.map Datum.asWritten = b.draft.vars.map Datum.asWritten
  time : a.draft.time = b.draft.time
  target : a.draft.target = b.draft.target
  dice : a.dice = b.dice
  error : a.error = b.error

theorem Applied.Same.refl (a : Applied) : a.Same a :=
  ⟨rfl, rfl, rfl, rfl, rfl, rfl, rfl⟩

theorem Table.map_put_congr {α β : Type} {f : α → β} (t : Table α) (name : String) {v w : α}
    (h : f v = f w) : (t.put name v).map f = (t.put name w).map f := by
  refine eq_of_entries ?_
  show (putEntry name v t.entries).map (fun e => (e.1, f e.2)) =
    (putEntry name w t.entries).map fun e => (e.1, f e.2)
  rw [← Datum.putEntry_map, ← Datum.putEntry_map, h]

namespace Effect

/-- An outcome `a` adds an integer where the outcome `b` of an effect adds the same number in floating
point, to an integer or, both negative, a zero to a zero. -/
def AddsWhole (e : Effect) (draft : Draft) (a b : Applied) : Prop :=
  ∃ position key x k dice, part? position e = some (.addResource key (.float x)) ∧
    x.toInt? = some k ∧
    ((∃ n, (draft.resource key).amount = .int n) ∨
      (draft.resource key).amount = .float (.zero true) ∧ x = .zero true) ∧
    b = draft.updateResource dice key (·.add (.float x)) ∧
    a = draft.updateResource dice key (·.add (.int k))

/-- One effect does what another does, in every state, but for whole numbers that it adds as
integers. -/
def Like (f e : Effect) : Prop :=
  ∀ draft dice, (f.apply draft dice).Same (e.apply draft dice) ∨
    AddsWhole e draft (f.apply draft dice) (e.apply draft dice)

theorem AddsWhole.of_part {e member : Effect} {draft : Draft} {a b : Applied}
    (h : AddsWhole member draft a b) (i : Nat)
    (hpart : ∀ position, part? (i :: position) e = part? position member) :
    AddsWhole e draft a b := by
  obtain ⟨position, key, x, k, dice, hmember, hrest⟩ := h
  exact ⟨i :: position, key, x, k, dice, (hpart position).trans hmember, hrest⟩

theorem Like.refl (e : Effect) : Like e e :=
  fun _ _ => .inl (.refl _)

theorem Like.addResource (key : String) {m n : Number}
    (h : m = n ∨ ∃ x k, n = .float x ∧ x.toInt? = some k ∧ m = .int k) :
    Like (.addResource key m) (.addResource key n) := by
  rcases h with rfl | ⟨x, k, rfl, hx, rfl⟩
  · exact .refl _
  · intro draft dice
    rw [apply, apply]
    cases hamount : (draft.resource key).amount with
    | int n => exact .inr ⟨[], key, x, k, dice, rfl, hx, .inl ⟨n, hamount⟩, rfl, rfl⟩
    | float y =>
      rcases Number.add_whole y hx with heq | ⟨rfl, rfl⟩
      · left
        unfold Draft.updateResource
        simp only [hamount, heq]
        exact .refl _
      · exact .inr ⟨[], key, _, k, dice, rfl, hx, .inr ⟨hamount, rfl⟩, rfl, rfl⟩

theorem Like.setVariable (key : String) {v w : Scalar}
    (h : v.toDatum.asWritten = w.toDatum.asWritten) :
    Like (.setVariable key v) (.setVariable key w) := by
  intro draft dice
  rw [apply, apply]
  exact .inl ⟨rfl, rfl, draft.vars.map_put_congr key h, rfl, rfl, rfl, rfl⟩

theorem Like.provided {d c : Condition} {f e : Effect}
    (heval : ∀ s, d.evaluate s = c.evaluate s) (h : Like f e) :
    Like (.provided d f) (.provided c e) := by
  intro draft dice
  rw [apply, apply, heval]
  split
  · exact (h draft dice).imp_right fun h => h.of_part 0 fun _ => rfl
  · exact .inl (.refl _)
  · exact .inl (.refl _)

/-- One member does what another does, and a note of it can be written where one of the other can. -/
def MemberLike (f e : Effect) : Prop :=
  f.toDatum.hasTooLong = e.toDatum.hasTooLong ∧ Like f e

theorem applyNth_like {fs es : List Effect} (h : List.Forall₂ MemberLike fs es) (n : Nat)
    (draft : Draft) (dice : Dice) : (applyNth fs n draft dice).Same (applyNth es n draft dice) ∨
      ∃ e, es[n]? = some e ∧ AddsWhole e draft (applyNth fs n draft dice)
        (applyNth es n draft dice) := by
  induction h generalizing n with
  | nil => exact .inl (.refl _)
  | @cons f e fs es hfe _ ih =>
    cases n with
    | zero =>
      rw [applyNth, applyNth, hfe.1]
      split
      · exact .inl (.refl _)
      · exact (hfe.2 draft dice).imp_right fun h => ⟨e, rfl, h⟩
    | succ n => exact ih n

theorem Like.oneOf {fs es : List Effect} (h : List.Forall₂ MemberLike fs es) :
    Like (.oneOf fs) (.oneOf es) := by
  intro draft dice
  rw [apply, apply, h.length_eq]
  split
  · exact .inl (.refl _)
  · rcases applyNth_like h (dice.throwSides es.length).1 draft (dice.throwSides es.length).2 with
      hsame | ⟨e, he, hadds⟩
    · exact .inl hsame
    · refine .inr (hadds.of_part (dice.throwSides es.length).1 fun _ => ?_)
      rw [part?, he]
      rfl

mutual

/-- An effect with scalars as they read back does what the effect does. -/
theorem like_asWritten : (e : Effect) → Like e.asWritten e
  | .setVariable key value => by
    refine .setVariable key ?_
    rw [value.toDatum_asWritten]
    cases value with
    | number n => exact congrArg Datum.number n.asWritten_asWritten
    | _ => rfl
  | .oneOf members => .oneOf (like_asWrittenEach members)
  | .provided condition member =>
    .provided (fun s => condition.evaluate_asWritten s) (like_asWritten member)
  | .setFlag .. | .addResource .. | .multiplyResource .. | .setResource .. | .goto _
  | .verbatim _ => .refl _

theorem like_asWrittenEach : (es : List Effect) → List.Forall₂ MemberLike (asWrittenEach es) es
  | [] => .nil
  | e :: es => .cons ⟨e.hasTooLong_asWritten, like_asWritten e⟩ (like_asWrittenEach es)

end

/-! ## Reading back -/

/-- A whole amount is read back from its shorthand as an integer. -/
theorem int_of_ofText_addResource {key : List Char} {key' : String} {m n : Number} {k : Int}
    (hfinite : n.isFinite = .ok true) (hk : n.whole? = some k)
    (hread : ofText ("addResource:".toList ++ (key ++ '=' :: n.plainText)) =
      .ok (some (.addResource key' m))) : ∃ j, m = .int j := by
  rw [ofText_addResource key hfinite] at hread
  obtain ⟨r, hr, heq⟩ := map_eq_ok_iff.1 hread
  obtain rfl : r = some (.addResource key' m) := by
    cases r with
    | none => cases heq
    | some f => exact heq
  unfold ofAddResource? at hr
  split at hr
  · cases hr
  · next line hassign =>
    split at hr
    · cases hr
    · next parts hparts =>
      obtain ⟨amount, hamount, hr⟩ := bind_eq_ok_iff.1 hr
      cases hr
      rw [eq_plainText_of_cutAssignment? hassign hparts, Number.plainText_of_whole? hk] at hparts
      have hint := Number.isInt_of_ofPlain? hparts (Number.point_not_mem_ofInt k)
      rw [Number.Parts.toNumber, if_pos hint] at hamount
      obtain ⟨j, -, rfl⟩ := map_eq_ok_iff.1 hamount
      exact ⟨j, rfl⟩

/-- What is read back from a shorthand without members does what the effect does. -/
theorem like_of_shorthand? {e f : Effect} {s : List Char} (h : e.WellFormed)
    (hs : e.shorthand? = some s) (hread : ofText s = .ok (some f)) (hagrees : f.agrees e = true) :
    Like f e := by
  have hkept := ne_verbatim_of_agrees hagrees (Spells.simple hs).ne_verbatim
  obtain ⟨cs, hspelled⟩ : ∃ cs, f.SpelledIn cs := by
    obtain ⟨beginning, first, last, body, rfl, hopens, -, hform⟩ := exists_opens_of_shorthand? hs
    exact ⟨_, spelledIn_of_ofStripped (hform _) (ofStripped_of_ofText_append hopens hread) hkept⟩
  cases hspelled with
  | setFlag =>
    cases e <;> simp only [agrees, Bool.false_eq_true, Bool.and_eq_true, beq_iff_eq] at hagrees
    rw [hagrees.1, hagrees.2]
    exact .refl _
  | @addResource key m =>
    cases h <;> simp only [agrees, Bool.false_eq_true, Bool.and_eq_true, beq_iff_eq] at hagrees
    obtain ⟨rfl, hm⟩ := hagrees
    next n hfinite _ =>
    refine .addResource key ?_
    rcases Number.eq_or_whole_of_agrees hm with rfl | ⟨k, hk, hn⟩
    · exact .inl rfl
    · obtain rfl := Option.some.inj hs
      rw [List.append_assoc] at hread
      obtain ⟨j, rfl⟩ := int_of_ofText_addResource hfinite hn hread
      obtain rfl := Option.some.inj hk
      cases n with
      | int i => exact .inl (congrArg Number.int (Option.some.inj hn).symm)
      | float x => exact .inr ⟨x, j, rfl, hn, rfl⟩
  | setVariable =>
    cases e <;> simp only [agrees, Bool.false_eq_true, Bool.and_eq_true, beq_iff_eq] at hagrees
    obtain ⟨rfl, hvalue⟩ := hagrees
    next value =>
    cases value with
    | text t =>
      rw [eq_of_beq hvalue]
      exact .refl _
    | number n => cases hvalue
    | truth b => cases hvalue
  | goto =>
    cases e <;> simp only [agrees, Bool.false_eq_true, beq_iff_eq] at hagrees
    rw [hagrees]
    exact .refl _

theorem forall₂_like {es fs : List Effect} {ts : List (List Char)}
    (hlike : ∀ e ∈ es, ∀ {t f}, e.renderChars = .ok t → ofText t = .ok (some f) →
      f.agrees e = true → Like f e)
    (hrender : List.Forall₂ (fun e t => e.renderChars = .ok t) es ts)
    (hread : List.Forall₂ (fun t f => ofText t = .ok (some f)) ts fs)
    (hagrees : List.Forall₂ (fun f e => f.agrees e = true) fs es) :
    List.Forall₂ MemberLike fs es := by
  induction hrender generalizing fs with
  | nil =>
    cases hagrees
    exact .nil
  | cons he _ ih =>
    obtain _ | ⟨hf, hread⟩ := hread
    obtain _ | ⟨hfe, hagrees⟩ := hagrees
    obtain ⟨hfirst, hlike⟩ := List.forall_mem_cons.1 hlike
    -- what has a text can be written, and so can what agrees with it
    have hshort := short_of_renderChars he
    have hshort' := (short_of_agrees _ _ hfe hshort).trans hshort.symm
    exact .cons ⟨hshort', hfirst he hf hfe⟩ (ih hlike hread hagrees)

end Effect

theorem Condition.evaluate_eq_of_reading {c d : Condition} {s : List Char} (h : c.WellFormed)
    (hrender : c.renderChars = .ok s) (hread : ofText s = .ok (some d))
    (hagrees : d.agrees c = true) (state : State) : d.evaluate state = c.evaluate state := by
  cases rendered_of_renderChars hrender with
  | verbatim =>
    cases d with
    | verbatim t => rfl
    | _ => cases hagrees
  | object hverbatim hshort =>
    rw [ofText_compact h hshort hverbatim] at hread
    cases hread
    exact evaluate_asWritten state c
  | shorthand _ hs _ _ =>
    exact (spelled_of_ofText_shorthand hs hread hagrees).evaluate_eq hagrees state

namespace Effect

/-- What is read back from the text of an effect does what the effect does, if it agrees with it. -/
theorem like_of_agrees {e f : Effect} {s : List Char} (h : e.WellFormed)
    (hrender : e.renderChars = .ok s) (hread : ofText s = .ok (some f))
    (hagrees : f.agrees e = true) : Like f e := by
  induction e using IsMember.wellFounded.induction generalizing f s with
  | _ e ih =>
    cases rendered_of_renderChars hrender with
    | @verbatim text =>
      cases f with
      | verbatim t =>
        obtain rfl : t = text := eq_of_beq hagrees
        exact .refl _
      | _ => cases hagrees
    | object hverbatim hshort =>
      rw [ofText_compact h hshort hverbatim] at hread
      cases hread
      exact like_asWritten e
    | shorthand hshort hs _ _ =>
      cases hs with
      | simple hs => exact like_of_shorthand? h hs hread hagrees
      | @random members texts hmembers htexts =>
        cases f with
        | oneOf fs =>
          cases h with
          | oneOf hmember =>
            have hagree := agreesEach_iff.1 hagrees
            have htexts := renderEach_eq_ok_iff.1 htexts
            exact .oneOf (forall₂_like (fun e he => ih e (.ofOneOf he) (hmember e he)) htexts
              (ofText_of_oneOf htexts hread hagree) hagree)
        | _ => cases hagrees
      | @conditional condition member text body htext hbody =>
        cases f with
        | provided d m =>
          cases h with
          | provided hcondition hmember =>
            obtain ⟨hdc, hm⟩ := (Bool.and_eq_true _ _).mp hagrees
            obtain ⟨hd, hread'⟩ := ofText_of_provided htext hread hdc
            exact .provided (Condition.evaluate_eq_of_reading hcondition htext hd hdc)
              (ih member .ofProvided hmember hbody hread' hm)
        | _ => cases hagrees

/-! ## The effect of rendering -/

/-- The text of an effect that was read from an object is read as an effect that does the same in
every state, but for a whole number in floating point that it adds to an integer, or a negative zero
that it adds to another: this one becomes an integer.  An effect has no text where a number in it
has too many digits, or a shorthand in it cannot be read, which has more than 308 consecutive
digits. -/
theorem rendered_effect_does_the_same {ms : List (String × Datum)} {e : Effect}
    (h : ofDatum (.object ms) = .ok e) :
    (∃ text f, e.render = .ok text ∧ ofTextOrObject (.text text) = .ok (some f) ∧ Like f e) ∨
    ∃ error, e.render = .error error ∧ (e.toDatum.hasTooLong = true ∨
      ∃ text, e.Tried text ∧ ofText text = .error error ∧ Numeral.LongRun text) := by
  have hwell := wellFormed_of_ofDatum _ h
  have hverbatim := ne_verbatim_of_ofDatum h
  cases hrender : e.renderChars with
  | ok s =>
    left
    obtain ⟨f, hread, hlike⟩ : ∃ f, ofText s = .ok (some f) ∧ Like f e := by
      cases rendered_of_renderChars hrender with
      | verbatim => exact absurd rfl (hverbatim _)
      | object _ hshort => exact ⟨_, ofText_compact hwell hshort hverbatim, like_asWritten e⟩
      | shorthand _ _ hread hagrees =>
        exact ⟨_, hread, like_of_agrees hwell hrender hread hagrees⟩
    refine ⟨String.ofList s, f, ?_, ?_, hlike⟩
    · rw [render, hrender]
      rfl
    · rw [ofTextOrObject, String.toList_ofList, hread]
  | error error =>
    right
    refine ⟨error, by rw [render, hrender]; rfl, ?_⟩
    cases hshort : e.toDatum.hasTooLong with
    | true => exact .inl rfl
    | false =>
      rcases rendered_or_unreadable hwell hshort with ⟨t, ht⟩ | ⟨error', herror, text, htried, hread⟩
      · rw [hrender] at ht
        cases ht
      · rw [hrender] at herror
        cases herror
        have hscans := scans_ofText text
        rw [hread] at hscans
        exact .inr ⟨text, htried, hread, hscans⟩

/-- Adds one, in floating point, to a resource. -/
def goldPiece : Effect :=
  .addResource "gold" (.float (.ofGrains false Binary64.one))

theorem wellFormed_goldPiece : goldPiece.WellFormed :=
  .addResource (by decide) (by decide +kernel)

/-- A draft with five pieces of gold. -/
def fivePieces : Draft :=
  { resources := Table.empty.put "gold" (.number (.int 5)) }

/-- Adds a piece of gold if a flag is not set. -/
def reward : Effect :=
  .provided (.flagIs "rich" false) goldPiece

theorem rendered_effect_does_the_same_reward :
    ofDatum reward.toDatum = .ok reward ∧
    ∃ text f, reward.render = .ok text ∧ ofTextOrObject (.text text) = .ok (some f) ∧
      Like f reward := by
  have hread : ofDatum reward.toDatum = .ok reward :=
    ofDatum_toDatum (.provided (.flagIs (by decide)) wellFormed_goldPiece)
  have hrenders : reward.render.toOption.isSome := by decide +kernel
  refine ⟨hread, (rendered_effect_does_the_same hread).resolve_right ?_⟩
  rintro ⟨error, herror, -⟩
  rw [herror] at hrenders
  cases hrenders

/-- One, in floating point, becomes an integer when it is rendered, and so does the resource that it is
added to. -/
theorem gold_piece_becomes_integer :
    ofDatum goldPiece.toDatum = .ok goldPiece ∧ goldPiece.render = .ok "addResource:gold=1" ∧
    ∃ f, ofTextOrObject (.text "addResource:gold=1") = .ok (some f) ∧
      (f.apply fivePieces (.ofList [])).draft.resources.get? "gold" = some (.number (.int 6)) ∧
      (goldPiece.apply fivePieces (.ofList [])).draft.resources.get? "gold" =
        some (.number (.float (.ofGrains false (6 * Binary64.one)))) := by
  have hplain : (Number.float (.ofGrains false Binary64.one)).plainText = ['1'] := by decide +kernel
  have hs : goldPiece.Spells "addResource:gold=1".toList := by
    refine .simple ?_
    rw [goldPiece, shorthand?, hplain]
    rfl
  have hread : ofText "addResource:gold=1".toList = .ok (some (.addResource "gold" (.int 1))) :=
    ofText_of_simple (by decide) rfl rfl
  have hchars := hs.renderChars_eq_ok (by decide +kernel) hread (by decide +kernel)
  exact ⟨ofDatum_toDatum wellFormed_goldPiece, map_eq_ok_iff.2 ⟨_, hchars, rfl⟩, _, hread,
    by decide +kernel, by decide +kernel⟩

end Effect

end Gamebook
