import Gamebook.Effect.Tagged
import Gamebook.Proofs.Fallible
import Gamebook.Proofs.Written

/-!
# Undefined numbers in tagged objects

An undefined number is refused wherever a number is needed and allowed wherever a scalar is, so it
makes no difference which undefined number stands in a document: from a datum as it reads back the same
is read as from the datum itself, with scalars as they read back, and a number that is out of range is
reported in both (`Condition.mirrors_ofDatum`, `Effect.mirrors_ofDatum`).  In particular the one is
accepted or refused like the other (`Condition.verdict_ofDatum_asWritten`,
`Effect.verdict_ofDatum_asWritten`).
-/

namespace Gamebook

/-- How the reading of a tagged object ends, whatever is read and whatever an error says of it. -/
inductive Verdict where
  | accepted
  | refused
  | outOfRange (error : RangeError)

/-- The verdict of a reading. -/
def Verdict.of {α : Type} : Except DecodeError α → Verdict
  | .ok _ => .accepted
  | .error (.tagged _) => .refused
  | .error (.range e) => .outOfRange e

/-- A second reading ends like the first, and what it reads is the image of what the first reads; what
an error says of a tagged object may be different. -/
inductive Mirrors {α β : Type} (f : α → β) : Except DecodeError α → Except DecodeError β → Prop where
  | accepted (a : α) : Mirrors f (.ok a) (.ok (f a))
  | refused (e e' : TaggedError) : Mirrors f (.error (.tagged e)) (.error (.tagged e'))
  | outOfRange (e : RangeError) : Mirrors f (.error (.range e)) (.error (.range e))

namespace Mirrors

variable {α β γ δ : Type} {f : α → β} {g : γ → δ} {x : Except DecodeError α}
  {y : Except DecodeError β}

theorem verdict (h : Mirrors f x y) : Verdict.of y = Verdict.of x := by
  cases h <;> rfl

theorem eq_ok {a : α} (h : Mirrors f (.ok a) y) : y = .ok (f a) := by
  cases h
  rfl

theorem refl (x : Except DecodeError α) : Mirrors id x x := by
  rcases x with (e | e) | a
  · exact .refused e e
  · exact .outOfRange e
  · exact .accepted a

/-- Readings that go on from what mirrors what. -/
theorem bind {next : α → Except DecodeError γ} {next' : β → Except DecodeError δ}
    (h : Mirrors f x y) (hnext : ∀ a, Mirrors g (next a) (next' (f a))) :
    Mirrors g (x >>= next) (y >>= next') := by
  cases h with
  | accepted a => exact hnext a
  | refused e e' => exact .refused e e'
  | outOfRange e => exact .outOfRange e

/-- A last step that only puts the parts together. -/
theorem last {make : α → γ} {make' : β → δ} (h : Mirrors f x y)
    (hmake : ∀ a, make' (f a) = g (make a)) :
    Mirrors g (x >>= fun a => .ok (make a)) (y >>= fun b => .ok (make' b)) :=
  h.bind fun a => by
    rw [hmake]
    exact .accepted (make a)

end Mirrors

/-! ## Numbers and scalars -/

theorem Number.isFinite_asWritten (n : Number) : n.asWritten.isFinite = n.isFinite := by
  unfold Number.asWritten
  split <;> rfl

theorem Number.isZero_asWritten (n : Number) : n.asWritten.isZero = n.isZero := by
  unfold Number.asWritten
  split <;> rfl

theorem Number.asWritten_of_isFinite {n : Number} (h : n.isFinite = .ok true) : n.asWritten = n := by
  unfold Number.asWritten
  split
  · cases h
  · rfl

/-- A scalar as it reads back. -/
def Scalar.asWritten : Scalar → Scalar
  | .number n => .number n.asWritten
  | x => x

namespace Datum

theorem member?_asWritten (name : String) (ms : List (String × Datum)) :
    member? name (asWrittenMembers ms) = (member? name ms).map asWritten := by
  induction ms with
  | nil => rfl
  | cons m ms ih =>
    obtain ⟨k, d⟩ := m
    rw [asWrittenMembers, member?_cons, member?_cons, ih]
    split <;> rfl

theorem memberOrNull_asWritten (name : String) (ms : List (String × Datum)) :
    memberOrNull name (asWrittenMembers ms) = (memberOrNull name ms).asWritten := by
  show (member? name (asWrittenMembers ms)).getD .null = ((member? name ms).getD .null).asWritten
  rw [member?_asWritten]
  cases member? name ms <;> rfl

theorem isEmpty_asWritten (d : Datum) : d.asWritten.isEmpty = d.isEmpty := by
  cases d with
  | null => rfl
  | truth b => rfl
  | number n => exact n.isZero_asWritten
  | text s => rfl
  | list items => cases items <;> rfl
  | object members => cases members <;> rfl

end Datum

/-- A field that may be empty where a list is missing. -/
theorem Mirrors.ofEmpty {α β : Type} {f : List α → List β} (hf : f [] = []) (d : Datum)
    (e : TaggedError) :
    Mirrors f (if d.isEmpty then .ok [] else .error (.tagged e))
      (if d.asWritten.isEmpty then .ok [] else .error (.tagged e)) := by
  rw [d.isEmpty_asWritten]
  split
  · have hempty : Mirrors f (.ok []) (.ok (f [])) := .accepted []
    rwa [hf] at hempty
  · exact .refused e e

namespace Tagged

variable (tag field : String) (ms : Members)

open Datum (asWrittenMembers)

theorem mirrors_require :
    Mirrors Datum.asWritten (require tag field ms) (require tag field (asWrittenMembers ms)) := by
  unfold require
  rw [Datum.member?_asWritten]
  cases Datum.member? field ms with
  | none => exact .refused _ _
  | some d =>
    cases d with
    | null => exact .refused _ _
    | _ => exact .accepted _

theorem mirrors_key : Mirrors id (key tag ms) (key tag (asWrittenMembers ms)) := by
  refine (mirrors_require tag "key" ms).bind fun d => ?_
  cases d with
  | text s => exact .refl _
  | _ => exact .refused _ _

theorem mirrors_number :
    Mirrors id (number tag field ms) (number tag field (asWrittenMembers ms)) := by
  refine (mirrors_require tag field ms).bind fun d => ?_
  cases d with
  | number n =>
    simp only [Datum.asWritten, n.isFinite_asWritten]
    rcases hfinite : n.isFinite with e | (_ | _)
    · exact .outOfRange e
    · exact .refused _ _
    · rw [Number.asWritten_of_isFinite hfinite]
      exact .accepted n
  | _ => exact .refused _ _

theorem mirrors_truth : Mirrors id (truth tag field ms) (truth tag field (asWrittenMembers ms)) := by
  unfold truth
  rw [Datum.member?_asWritten]
  cases Datum.member? field ms with
  | none => exact .accepted true
  | some d =>
    cases d with
    | truth b => exact .accepted b
    | text s => exact .accepted (truthOfText s.toList)
    | number n =>
      have hone : n.asWritten.eq 1 = n.eq 1 := by
        unfold Number.asWritten
        split <;> rfl
      simp only [Option.map_some, Datum.asWritten, hone]
      exact .accepted (n.eq 1)
    | _ => exact .refused _ _

theorem mirrors_scalar :
    Mirrors Scalar.asWritten (scalar tag field ms) (scalar tag field (asWrittenMembers ms)) := by
  unfold scalar
  rw [Datum.member?_asWritten]
  cases Datum.member? field ms with
  | none => exact .accepted (Scalar.text "")
  | some d =>
    cases d with
    | null => exact .accepted (Scalar.text "")
    | truth b => exact .accepted (Scalar.truth b)
    | number n => exact .accepted (Scalar.number n)
    | text s => exact .accepted (Scalar.text s)
    | list _ | object _ => exact .refused _ _

end Tagged

/-! ## Conditions -/

namespace Condition

open Datum (asWrittenItems asWrittenMembers)

mutual

/-- A condition with scalars as they read back. -/
def asWritten : Condition → Condition
  | .variableIs key likeness value => .variableIs key likeness value.asWritten
  | .allOf members => .allOf (asWrittenEach members)
  | .anyOf members => .anyOf (asWrittenEach members)
  | .negation member => .negation (asWritten member)
  | c => c

/-- Each condition of a list with scalars as they read back. -/
def asWrittenEach : List Condition → List Condition
  | [] => []
  | c :: cs => asWritten c :: asWrittenEach cs

end

theorem mirrors_relationOf (ms : Tagged.Members) :
    Mirrors id (relationOf ms) (relationOf (asWrittenMembers ms)) := by
  unfold relationOf
  rw [Datum.member?_asWritten]
  cases Datum.member? "op" ms with
  | none => exact .refl _
  | some d =>
    cases d with
    | text s => exact .refl _
    | _ => exact .refused _ _

theorem mirrors_likenessOf (ms : Tagged.Members) :
    Mirrors id (likenessOf ms) (likenessOf (asWrittenMembers ms)) := by
  unfold likenessOf
  rw [Datum.member?_asWritten]
  cases Datum.member? "op" ms with
  | none => exact .refl _
  | some d =>
    cases d with
    | text s => exact .refl _
    | _ => exact .refused _ _

mutual

/-- What is read from a datum as it reads back. -/
theorem mirrors_ofDatum : (d : Datum) → Mirrors asWritten (ofDatum d) (ofDatum d.asWritten)
  | .object ms => by
    rw [Datum.asWritten, ofDatum.eq_def, ofDatum.eq_def]
    simp only
    rw [Datum.memberOrNull_asWritten]
    cases Datum.memberOrNull "type" ms with
    | text s =>
      simp only [Datum.asWritten]
      split
      · exact (Tagged.mirrors_key _ ms).bind fun _ =>
          (Tagged.mirrors_truth _ _ ms).last fun _ => rfl
      · exact (mirrors_relationOf ms).bind fun _ => (Tagged.mirrors_key _ ms).bind fun _ =>
          (Tagged.mirrors_number _ _ ms).last fun _ => rfl
      · exact (mirrors_likenessOf ms).bind fun _ => (Tagged.mirrors_key _ ms).bind fun _ =>
          (Tagged.mirrors_scalar _ _ ms).last fun _ => rfl
      · exact (Tagged.mirrors_number _ _ ms).bind fun _ =>
          (Tagged.mirrors_number _ _ ms).last fun _ => rfl
      · exact (mirrors_membersOf _ ms).last fun _ => rfl
      · exact (mirrors_membersOf _ ms).last fun _ => rfl
      · exact (mirrors_memberOf _ ms).last fun _ => rfl
      · exact .refused _ _
    | _ => exact .refused _ _
  | .text s => .accepted (Condition.verbatim s)
  | .null | .truth _ | .number _ | .list _ => .refused _ _

theorem mirrors_ofItems : (ds : List Datum) →
    Mirrors asWrittenEach (ofItems ds) (ofItems (asWrittenItems ds))
  | [] => .accepted []
  | d :: ds => by
    rw [asWrittenItems, ofItems, ofItems]
    exact (mirrors_ofDatum d).bind fun _ => (mirrors_ofItems ds).last fun _ => rfl

theorem mirrors_membersOf (tag : String) : (ms : List (String × Datum)) →
    Mirrors asWrittenEach (membersOf tag ms) (membersOf tag (asWrittenMembers ms))
  | [] => .accepted []
  | (k, d) :: ms => by
    rw [asWrittenMembers, membersOf.eq_def, membersOf.eq_def]
    simp only
    by_cases hk : k = "conditions"
    · rw [if_pos hk, if_pos hk]
      cases d with
      | list items => exact mirrors_ofItems items
      | _ => exact Mirrors.ofEmpty rfl _ _
    · rw [if_neg hk, if_neg hk]
      exact mirrors_membersOf tag ms

theorem mirrors_memberOf (tag : String) : (ms : List (String × Datum)) →
    Mirrors asWritten (memberOf tag ms) (memberOf tag (asWrittenMembers ms))
  | [] => .refused _ _
  | (k, d) :: ms => by
    rw [asWrittenMembers, memberOf.eq_def, memberOf.eq_def]
    simp only
    by_cases hk : k = "condition"
    · rw [if_pos hk, if_pos hk]
      cases d with
      | null => exact .refused _ _
      | _ => exact mirrors_ofDatum _
    · rw [if_neg hk, if_neg hk]
      exact mirrors_memberOf tag ms

end

/-- A datum as it reads back is accepted or refused like the datum itself. -/
theorem verdict_ofDatum_asWritten (d : Datum) :
    Verdict.of (ofDatum d.asWritten) = Verdict.of (ofDatum d) :=
  (mirrors_ofDatum d).verdict

end Condition

/-! ## Effects -/

namespace Effect

open Datum (asWrittenItems asWrittenMembers)

mutual

/-- An effect with scalars as they read back. -/
def asWritten : Effect → Effect
  | .setVariable key value => .setVariable key value.asWritten
  | .oneOf members => .oneOf (asWrittenEach members)
  | .provided condition member => .provided condition.asWritten (asWritten member)
  | e => e

/-- Each effect of a list with scalars as they read back. -/
def asWrittenEach : List Effect → List Effect
  | [] => []
  | e :: es => asWritten e :: asWrittenEach es

end

theorem deltaField_asWritten (ms : Tagged.Members) :
    deltaField (asWrittenMembers ms) = deltaField ms := by
  unfold deltaField
  rw [Datum.memberOrNull_asWritten]
  cases Datum.memberOrNull "delta" ms <;> rfl

theorem mirrors_targetOf (ms : Tagged.Members) :
    Mirrors id (targetOf ms) (targetOf (asWrittenMembers ms)) := by
  refine (Tagged.mirrors_require "goto" "target" ms).bind fun d => ?_
  cases d with
  | text s => exact .accepted s
  | _ => exact .refused _ _

mutual

/-- What is read from a datum as it reads back. -/
theorem mirrors_ofDatum : (d : Datum) → Mirrors asWritten (ofDatum d) (ofDatum d.asWritten)
  | .object ms => by
    rw [Datum.asWritten, ofDatum.eq_def, ofDatum.eq_def]
    simp only
    rw [Datum.memberOrNull_asWritten, deltaField_asWritten]
    cases Datum.memberOrNull "type" ms with
    | text s =>
      simp only [Datum.asWritten]
      split
      · exact (Tagged.mirrors_key _ ms).bind fun _ =>
          (Tagged.mirrors_truth _ _ ms).last fun _ => rfl
      · exact (Tagged.mirrors_key _ ms).bind fun _ =>
          (Tagged.mirrors_number _ _ ms).last fun _ => rfl
      · exact (Tagged.mirrors_key _ ms).bind fun _ =>
          (Tagged.mirrors_number _ _ ms).last fun _ => rfl
      · exact (Tagged.mirrors_key _ ms).bind fun _ =>
          (Tagged.mirrors_number _ _ ms).last fun _ => rfl
      · exact (Tagged.mirrors_key _ ms).bind fun _ =>
          (Tagged.mirrors_scalar _ _ ms).last fun _ => rfl
      · exact (mirrors_targetOf ms).last fun _ => rfl
      · exact (mirrors_membersOf ms).last fun _ => rfl
      · exact (Condition.mirrors_memberOf _ ms).bind fun _ =>
          (mirrors_memberOf ms).last fun _ => rfl
      · exact .refused _ _
    | _ => exact .refused _ _
  | .text s => .accepted (Effect.verbatim s)
  | .null | .truth _ | .number _ | .list _ => .refused _ _

theorem mirrors_ofItems : (ds : List Datum) →
    Mirrors asWrittenEach (ofItems ds) (ofItems (asWrittenItems ds))
  | [] => .accepted []
  | d :: ds => by
    rw [asWrittenItems, ofItems, ofItems]
    exact (mirrors_ofDatum d).bind fun _ => (mirrors_ofItems ds).last fun _ => rfl

theorem mirrors_membersOf : (ms : List (String × Datum)) →
    Mirrors asWrittenEach (membersOf ms) (membersOf (asWrittenMembers ms))
  | [] => .accepted []
  | (k, d) :: ms => by
    rw [asWrittenMembers, membersOf.eq_def, membersOf.eq_def]
    simp only
    by_cases hk : k = "effects"
    · rw [if_pos hk, if_pos hk]
      cases d with
      | list items => exact mirrors_ofItems items
      | _ => exact Mirrors.ofEmpty rfl _ _
    · rw [if_neg hk, if_neg hk]
      exact mirrors_membersOf ms

theorem mirrors_memberOf : (ms : List (String × Datum)) →
    Mirrors asWritten (memberOf ms) (memberOf (asWrittenMembers ms))
  | [] => .refused _ _
  | (k, d) :: ms => by
    rw [asWrittenMembers, memberOf.eq_def, memberOf.eq_def]
    simp only
    by_cases hk : k = "effect"
    · rw [if_pos hk, if_pos hk]
      cases d with
      | null => exact .refused _ _
      | _ => exact mirrors_ofDatum _
    · rw [if_neg hk, if_neg hk]
      exact mirrors_memberOf ms

end

/-- A datum as it reads back is accepted or refused like the datum itself. -/
theorem verdict_ofDatum_asWritten (d : Datum) :
    Verdict.of (ofDatum d.asWritten) = Verdict.of (ofDatum d) :=
  (mirrors_ofDatum d).verdict

end Effect

end Gamebook
