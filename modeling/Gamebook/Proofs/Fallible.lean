import Mathlib.Data.List.Forall2

/-!
# Calculations that can fail

A calculation in `Except` succeeds if each of its steps does.  `bind_eq_ok_iff` and `map_eq_ok_iff`
take one that succeeded apart, so that other proofs follow the steps by name instead of unfolding them.

`Gives` says both what a calculation gives and why it fails, and is put together along the steps.
-/

namespace Gamebook

variable {ε ε' α β : Type}

theorem bind_eq_ok_iff {x : Except ε α} {f : α → Except ε β} {b : β} :
    x >>= f = .ok b ↔ ∃ a, x = .ok a ∧ f a = .ok b := by
  cases x with
  | error e =>
    constructor
    · intro h
      cases h
    · rintro ⟨a, h, -⟩
      cases h
  | ok a =>
    constructor
    · intro h
      exact ⟨a, rfl, h⟩
    · rintro ⟨a', h, hb⟩
      cases h
      exact hb

theorem map_eq_ok_iff {x : Except ε α} {f : α → β} {b : β} :
    x.map f = .ok b ↔ ∃ a, x = .ok a ∧ f a = b := by
  cases x with
  | error e => simp [Except.map]
  | ok a => simp [Except.map]

@[simp] theorem ok_bind (a : α) (f : α → Except ε β) : (Except.ok a >>= f) = f a := rfl

theorem map_ok (a : α) (f : α → β) : (Except.ok a : Except ε α).map f = .ok (f a) := rfl

@[simp] theorem pure_eq_ok (a : α) : (pure a : Except ε α) = .ok a := rfl

theorem mapError_eq_ok {x : Except ε α} {f : ε → ε'} {a : α} (h : x.mapError f = .ok a) :
    x = .ok a := by
  cases x with
  | ok b => exact congrArg Except.ok (Except.ok.inj h)
  | error e => cases h

theorem mapM_eq_ok_iff {f : α → Except ε β} {as : List α} {bs : List β} :
    as.mapM f = .ok bs ↔ List.Forall₂ (fun a b => f a = .ok b) as bs := by
  induction as generalizing bs with
  | nil =>
    rw [List.mapM_nil, List.forall₂_nil_left_iff, pure_eq_ok, Except.ok.injEq]
    exact eq_comm
  | cons a as ih =>
    simp only [List.mapM_cons, bind_eq_ok_iff, ih, List.forall₂_cons_left_iff, pure_eq_ok,
      Except.ok.injEq]
    constructor
    · rintro ⟨b, hb, bs', hbs, rfl⟩
      exact ⟨b, bs', hb, hbs, rfl⟩
    · rintro ⟨b, bs', hb, hbs, rfl⟩
      exact ⟨b, hb, bs', hbs, rfl⟩

/-- A calculation gives what satisfies `P`, or fails with what satisfies `Q`. -/
def Gives (x : Except ε α) (P : α → Prop) (Q : ε → Prop) : Prop :=
  match x with
  | .ok a => P a
  | .error e => Q e

namespace Gives

variable {x : Except ε α} {P P' : α → Prop} {Q Q' : ε → Prop} {R : β → Prop}

theorem mono (h : Gives x P Q) (hP : ∀ a, P a → P' a) (hQ : ∀ e, Q e → Q' e) : Gives x P' Q' := by
  cases x with
  | ok a => exact hP a h
  | error e => exact hQ e h

theorem bind {f : α → Except ε β} (h : Gives x P Q) (hf : ∀ a, P a → Gives (f a) R Q) :
    Gives (x >>= f) R Q := by
  cases x with
  | ok a => exact hf a h
  | error e => exact h

theorem map {f : α → β} (h : Gives x P Q) (hf : ∀ a, P a → R (f a)) : Gives (x.map f) R Q := by
  cases x with
  | ok a => exact hf a h
  | error e => exact h

theorem mapError {f : ε → ε'} {S : ε' → Prop} (h : Gives x P Q) (hf : ∀ e, Q e → S (f e)) :
    Gives (x.mapError f) P S := by
  cases x with
  | ok a => exact h
  | error e => exact hf e h

end Gives

end Gamebook
