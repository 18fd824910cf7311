import Gamebook.Proofs.EffectText
import Gamebook.Proofs.TextNumbers

/-!
# Texts and objects that cannot be read

Any datum is read as a condition and as an effect: as none if it is a blank text or neither a text nor
an object (`Datum.Silent`), and else as one, be it verbatim.  Only a number out of range makes reading
fail, and then there are more than 308 consecutive digits in the text, or there is an integer of so many
digits in the object (`reading_fails_only_out_of_range`).

Such an object does make it fail (`huge_objects_not_read`), although a text with the same number is kept
or read.
-/

namespace Gamebook

open Numeral (LongRun)
open Text (strip)

/-! ## Literals -/

theorem Number.huge_of_isTooLong {n : Number} (h : n.isTooLong = true) : n.Huge := by
  cases n with
  | int i =>
    by_contra hnot
    rw [isTooLong_of_isFinite (isFinite_of_not_huge hnot)] at h
    cases h
  | float x => cases h

namespace Datum

mutual

/-- A number with more digits than are written has more than 308. -/
theorem huge_of_hasTooLong : (d : Datum) → d.hasTooLong = true → d.Huge
  | .number n, h => .number (Number.huge_of_isTooLong h)
  | .list items, h => by
    obtain ⟨d, hd, hhuge⟩ := huge_of_someTooLong items h
    exact .item hd hhuge
  | .object members, h => by
    obtain ⟨m, hm, hhuge⟩ := huge_of_memberTooLong members h
    exact .member hm hhuge
  | .null, h | .truth _, h | .text _, h => by cases h

theorem huge_of_someTooLong : (ds : List Datum) → someTooLong ds = true → ∃ d ∈ ds, d.Huge
  | [], h => by cases h
  | d :: ds, h => by
    rw [someTooLong, Bool.or_eq_true] at h
    rcases h with h | h
    · exact ⟨d, List.mem_cons_self, huge_of_hasTooLong d h⟩
    · obtain ⟨d', hd, hhuge⟩ := huge_of_someTooLong ds h
      exact ⟨d', List.mem_cons_of_mem _ hd, hhuge⟩

theorem huge_of_memberTooLong : (ms : List (String × Datum)) → memberTooLong ms = true →
    ∃ m ∈ ms, m.2.Huge
  | [], h => by cases h
  | (k, d) :: ms, h => by
    rw [memberTooLong, Bool.or_eq_true] at h
    rcases h with h | h
    · exact ⟨(k, d), List.mem_cons_self, huge_of_hasTooLong d h⟩
    · obtain ⟨m, hm, hhuge⟩ := huge_of_memberTooLong ms h
      exact ⟨m, List.mem_cons_of_mem _ hm, hhuge⟩

end

theorem gives_literal (d : Datum) : Gives d.literal (fun _ => True) fun _ => d.Huge := by
  unfold literal
  split
  · next h => exact huge_of_hasTooLong d h
  · trivial

/-- A datum that stands for nothing: a blank text, or neither a text nor an object. -/
def Silent : Datum → Prop
  | .text s => strip s.toList = []
  | .object _ => False
  | _ => True

/-- Where a number can be out of range: a text with a long run of digits, or data with an integer of
more than 308 digits. -/
def Overlong : Datum → Prop
  | .text s => LongRun s.toList
  | d => d.Huge

end Datum

/-! ## Objects and texts -/

section

variable {α : Type}

/-- A datum that is kept as its text where it is not accepted. -/
theorem gives_orLiteral {d : Datum} {x : Except DecodeError α} {kept : List Char → α}
    (h : Decodes d x) :
    Gives (orKept x (d.literal.map kept)) (fun _ => True) fun _ => d.Huge := by
  rcases x with (e | e) | a
  · exact (Datum.gives_literal d).map fun _ => id
  · exact h
  · trivial

theorem gives_some {x : Except RangeError α} {ms : Tagged.Members}
    (h : Gives x (fun _ => True) fun _ => (Datum.object ms).Huge) :
    Gives (x.map some) (fun r => r = none ↔ (Datum.object ms).Silent) fun _ =>
      (Datum.object ms).Overlong := by
  cases x with
  | ok a => exact ⟨nofun, False.elim⟩
  | error e => exact h

/-- A text is read as none exactly if it is blank. -/
theorem gives_text {s : String} {read : List Char → Except RangeError α}
    (h : Scans s.toList (if (strip s.toList).isEmpty then .ok none
      else (read (strip s.toList)).map some)) :
    Gives (if (strip s.toList).isEmpty then .ok none else (read (strip s.toList)).map some)
      (fun r => r = none ↔ (Datum.text s).Silent) fun _ => (Datum.text s).Overlong := by
  show Gives _ (fun r => r = none ↔ strip s.toList = []) fun _ => LongRun s.toList
  cases hstrip : strip s.toList with
  | nil => exact ⟨fun _ => rfl, fun _ => rfl⟩
  | cons c cs =>
    rw [hstrip] at h
    simp only [List.isEmpty_cons, Bool.false_eq_true, ↓reduceIte] at h ⊢
    cases hread : read (c :: cs) with
    | ok a => exact ⟨nofun, nofun⟩
    | error e =>
      rw [hread] at h
      exact h

end

theorem Condition.gives_ofTextOrObject (d : Datum) :
    Gives (ofTextOrObject d) (fun r => r = none ↔ d.Silent) fun _ => d.Overlong := by
  cases d with
  | text s => exact gives_text (scans_ofText s.toList)
  | object ms =>
    rw [ofTextOrObject, ofObject_eq]
    exact gives_some (gives_orLiteral (decodes_ofDatum _))
  | _ => exact ⟨fun _ => trivial, fun _ => rfl⟩

theorem Effect.gives_ofTextOrObject (d : Datum) :
    Gives (ofTextOrObject d) (fun r => r = none ↔ d.Silent) fun _ => d.Overlong := by
  cases d with
  | text s => exact gives_text (scans_ofText s.toList)
  | object ms =>
    rw [ofTextOrObject, ofObject_eq]
    exact gives_some (gives_orLiteral (decodes_ofDatum _))
  | _ => exact ⟨fun _ => trivial, fun _ => rfl⟩

/-- Any datum is read as a condition and as an effect, as none exactly if it stands for nothing, unless
a number in it is out of range. -/
theorem reading_fails_only_out_of_range (d : Datum) :
    Gives (Condition.ofTextOrObject d) (fun r => r = none ↔ d.Silent) (fun _ => d.Overlong) ∧
    Gives (Effect.ofTextOrObject d) (fun r => r = none ↔ d.Silent) (fun _ => d.Overlong) :=
  ⟨Condition.gives_ofTextOrObject d, Effect.gives_ofTextOrObject d⟩

/-! ### Objects out of range -/

theorem Condition.ofTextOrObject_resourceIs {key : String} (hkey : key ≠ "") (relation : Relation)
    {value : Number} {error : RangeError} (h : value.isFinite = .error error) :
    ofTextOrObject (toDatum (.resourceIs key relation value)) = .error error := by
  have hdatum := ofDatum_resourceIs hkey relation h
  rw [toDatum] at hdatum ⊢
  rw [ofTextOrObject, ofObject_eq, hdatum]
  rfl

/-- An object like an effect's, whose amount need not be in range. -/
def Effect.resourceDatum (amount : Number) : Datum :=
  .object [("type", .text "setResource"), ("key", .text "gold"), ("value", .number amount)]

theorem Effect.ofDatum_resourceDatum {amount : Number} {error : RangeError}
    (h : amount.isFinite = .error error) :
    ofDatum (resourceDatum amount) = .error (.range error) := by
  have hnumber : Tagged.number "setResource" "value" [("type", .text "setResource"),
      ("key", .text "gold"), ("value", .number amount)] = .error (.range error) := by
    simp only [Tagged.number, Tagged.require, Datum.member?_cons, String.reduceEq, ↓reduceIte,
      ok_bind, h]
    rfl
  rw [resourceDatum, ofDatum]
  simp only [Datum.memberOrNull_cons, ↓reduceIte, hnumber]
  rfl

theorem Effect.ofTextOrObject_resourceDatum {amount : Number} {error : RangeError}
    (h : amount.isFinite = .error error) :
    ofTextOrObject (resourceDatum amount) = .error error := by
  have hdatum := ofDatum_resourceDatum h
  rw [resourceDatum] at hdatum ⊢
  rw [ofTextOrObject, ofObject_eq, hdatum]
  rfl

theorem huge_objects_not_read :
    Condition.ofTextOrObject (Condition.toDatum (.resourceIs "gold" .atLeast (.int (10 ^ 400)))) =
      .error .tooLarge ∧
    Effect.ofTextOrObject (Effect.resourceDatum (.int (10 ^ 400))) = .error .tooLarge := by
  have hhuge := Number.isFinite_ten_pow (Nat.le_refl 400)
  exact ⟨Condition.ofTextOrObject_resourceIs (by decide) _ hhuge,
    Effect.ofTextOrObject_resourceDatum hhuge⟩

end Gamebook
