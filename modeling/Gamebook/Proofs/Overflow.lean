import Gamebook.Effect.Tagged
import Gamebook.Proofs.LongRun

/-!
# Data refused for the range of a number

A condition or an effect in a document is refused for the range of a number only if there is an integer
of more than 308 digits somewhere in it (`Condition.decodes_ofDatum`, `Effect.decodes_ofDatum`).
-/

namespace Gamebook

open Numeral (LongRun)

variable {α : Type}

/-- A decoder finds a number out of range only if `P`. -/
def DecodeError.RangeOnlyIf (P : Prop) : DecodeError → Prop
  | .tagged _ => True
  | .range _ => P

/-- A decoder finds a number out of range only where there is an integer of more than 308 digits. -/
def Decodes (d : Datum) (x : Except DecodeError α) : Prop :=
  Gives x (fun _ => True) (DecodeError.RangeOnlyIf d.Huge)

theorem Decodes.bind {β : Type} {d : Datum} {x : Except DecodeError α} {f : α → Except DecodeError β}
    (h : Decodes d x) (hf : ∀ a, Decodes d (f a)) : Decodes d (x >>= f) :=
  Gives.bind h fun a _ => hf a

theorem Decodes.mono {d e : Datum} {x : Except DecodeError α} (h : Decodes d x)
    (hd : d.Huge → e.Huge) : Decodes e x := by
  refine Gives.mono h (fun _ => id) fun error herror => ?_
  cases error with
  | tagged error => trivial
  | range error => exact hd herror

theorem Decodes.ok {d : Datum} (a : α) : Decodes d (.ok a) := trivial

/-! ## Fields -/

namespace Tagged

variable (tag field : String) (ms : Members)

theorem mem_of_member? {name : String} {ms : List (String × Datum)} {d : Datum}
    (h : Datum.member? name ms = some d) : (name, d) ∈ ms := by
  induction ms with
  | nil => cases h
  | cons m ms ih =>
    rw [Datum.member?_cons] at h
    split at h
    · next hname =>
      cases h
      rw [hname]
      exact List.mem_cons_self
    · exact List.mem_cons_of_mem _ (ih h)

theorem decodes_require : Decodes (.object ms) (require tag field ms) := by
  unfold require
  split <;> trivial

theorem decodes_key : Decodes (.object ms) (key tag ms) := by
  refine (decodes_require tag "key" ms).bind fun d => ?_
  split
  · split <;> trivial
  · trivial

theorem decodes_number : Decodes (.object ms) (number tag field ms) := by
  unfold number require
  cases hd : Datum.member? field ms with
  | none => trivial
  | some d =>
    have hmem := mem_of_member? hd
    cases d with
    | number n =>
      simp only [ok_bind]
      split
      · next hn => exact .member hmem (.number (Number.huge_of_isFinite hn))
      · trivial
      · trivial
    | _ => trivial

theorem decodes_truth : Decodes (.object ms) (truth tag field ms) := by
  unfold truth
  split <;> trivial

theorem decodes_scalar : Decodes (.object ms) (scalar tag field ms) := by
  unfold scalar
  split
  · trivial
  · trivial
  · split <;> trivial

end Tagged

theorem Datum.Huge.of_tail {m : String × Datum} {ms : List (String × Datum)}
    (h : (Datum.object ms).Huge) : (Datum.object (m :: ms)).Huge := by
  cases h with
  | member hm h => exact .member (List.mem_cons_of_mem _ hm) h

theorem Datum.Huge.of_items {d : Datum} {ds : List Datum}
    (h : (Datum.list ds).Huge) : (Datum.list (d :: ds)).Huge := by
  cases h with
  | item hd h => exact .item (List.mem_cons_of_mem _ hd) h

/-! ## Conditions -/

namespace Condition

theorem decodes_relationOf (ms : Tagged.Members) : Decodes (.object ms) (relationOf ms) := by
  unfold relationOf
  split
  · trivial
  · split <;> trivial
  · trivial

theorem decodes_likenessOf (ms : Tagged.Members) : Decodes (.object ms) (likenessOf ms) := by
  unfold likenessOf
  split
  · trivial
  · split <;> trivial
  · trivial

mutual

/-- A condition is refused for its range only if its datum holds an integer of more than 308 digits. -/
theorem decodes_ofDatum : (d : Datum) → Decodes d (ofDatum d)
  | .text _ => trivial
  | .object ms => by
    rw [ofDatum]
    split
    · exact (Tagged.decodes_key _ ms).bind fun _ => (Tagged.decodes_truth _ _ ms).bind fun _ => .ok _
    · exact (decodes_relationOf ms).bind fun _ => (Tagged.decodes_key _ ms).bind fun _ =>
        (Tagged.decodes_number _ _ ms).bind fun _ => .ok _
    · exact (decodes_likenessOf ms).bind fun _ => (Tagged.decodes_key _ ms).bind fun _ =>
        (Tagged.decodes_scalar _ _ ms).bind fun _ => .ok _
    · exact (Tagged.decodes_number _ _ ms).bind fun _ =>
        (Tagged.decodes_number _ _ ms).bind fun _ => .ok _
    · exact (decodes_membersOf _ ms).bind fun _ => .ok _
    · exact (decodes_membersOf _ ms).bind fun _ => .ok _
    · exact (decodes_memberOf _ ms).bind fun _ => .ok _
    · trivial
  | .null | .truth _ | .number _ | .list _ => trivial

theorem decodes_ofItems : (ds : List Datum) → Decodes (.list ds) (ofItems ds)
  | [] => trivial
  | d :: ds => by
    rw [ofItems]
    have hhead := (decodes_ofDatum d).mono (e := .list (d :: ds)) (.item List.mem_cons_self)
    have htail := (decodes_ofItems ds).mono (Datum.Huge.of_items (d := d))
    exact hhead.bind fun _ => htail.bind fun _ => .ok _

theorem decodes_membersOf (tag : String) : (ms : List (String × Datum)) →
    Decodes (.object ms) (membersOf tag ms)
  | [] => trivial
  | (k, d) :: ms => by
    unfold membersOf
    split
    · split
      · next items => exact (decodes_ofItems items).mono (.member List.mem_cons_self)
      · split <;> trivial
    · exact (decodes_membersOf tag ms).mono .of_tail

theorem decodes_memberOf (tag : String) : (ms : List (String × Datum)) →
    Decodes (.object ms) (memberOf tag ms)
  | [] => trivial
  | (k, d) :: ms => by
    unfold memberOf
    split
    · split
      · trivial
      · exact (decodes_ofDatum d).mono (.member List.mem_cons_self)
    · exact (decodes_memberOf tag ms).mono .of_tail

end

end Condition

/-! ## Effects -/

namespace Effect

theorem decodes_targetOf (ms : Tagged.Members) : Decodes (.object ms) (targetOf ms) := by
  refine (Tagged.decodes_require _ _ ms).bind fun d => ?_
  split <;> trivial

mutual

/-- An effect is refused for its range only if its datum holds an integer of more than 308 digits. -/
theorem decodes_ofDatum : (d : Datum) → Decodes d (ofDatum d)
  | .text _ => trivial
  | .object ms => by
    rw [ofDatum]
    split
    · exact (Tagged.decodes_key _ ms).bind fun _ => (Tagged.decodes_truth _ _ ms).bind fun _ => .ok _
    · exact (Tagged.decodes_key _ ms).bind fun _ => (Tagged.decodes_number _ _ ms).bind fun _ => .ok _
    · exact (Tagged.decodes_key _ ms).bind fun _ => (Tagged.decodes_number _ _ ms).bind fun _ => .ok _
    · exact (Tagged.decodes_key _ ms).bind fun _ => (Tagged.decodes_number _ _ ms).bind fun _ => .ok _
    · exact (Tagged.decodes_key _ ms).bind fun _ => (Tagged.decodes_scalar _ _ ms).bind fun _ => .ok _
    · exact (decodes_targetOf ms).bind fun _ => .ok _
    · exact (decodes_membersOf ms).bind fun _ => .ok _
    · exact (Condition.decodes_memberOf _ ms).bind fun _ => (decodes_memberOf ms).bind fun _ => .ok _
    · trivial
  | .null | .truth _ | .number _ | .list _ => trivial

theorem decodes_ofItems : (ds : List Datum) → Decodes (.list ds) (ofItems ds)
  | [] => trivial
  | d :: ds => by
    rw [ofItems]
    have hhead := (decodes_ofDatum d).mono (e := .list (d :: ds)) (.item List.mem_cons_self)
    have htail := (decodes_ofItems ds).mono (Datum.Huge.of_items (d := d))
    exact hhead.bind fun _ => htail.bind fun _ => .ok _

theorem decodes_membersOf : (ms : List (String × Datum)) → Decodes (.object ms) (membersOf ms)
  | [] => trivial
  | (k, d) :: ms => by
    unfold membersOf
    split
    · split
      · next items => exact (decodes_ofItems items).mono (.member List.mem_cons_self)
      · split <;> trivial
    · exact (decodes_membersOf ms).mono .of_tail

theorem decodes_memberOf : (ms : List (String × Datum)) → Decodes (.object ms) (memberOf ms)
  | [] => trivial
  | (k, d) :: ms => by
    unfold memberOf
    split
    · split
      · trivial
      · exact (decodes_ofDatum d).mono (.member List.mem_cons_self)
    · exact (decodes_memberOf ms).mono .of_tail

end

end Effect

end Gamebook
