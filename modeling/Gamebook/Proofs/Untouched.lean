import Gamebook.Proofs.Destination
import Gamebook.Proofs.Writes

/-!
# What effects leave alone

A write changes the value of one key in one table, the one that its effect names.  So the chain of
writes that applying effects comes to leaves every other key as it is, absent or with its value, and
the clock as well (`Effect.value?_of_writes`, `Effect.time_of_writes`).  The target is not written but
follows the gotos that are applied, which are among those that the validator collects.

Effects may stop anywhere, as a calculation may fail.  `Effect.applyAll_frame` therefore speaks of the
draft after any number of the effects, whether the last of them failed or not.
-/

namespace Gamebook

/-- What the keys of a table have as values. -/
def Store.Value : Store → Type
  | .flags => Datum
  | .resources => Quantity
  | .vars => Datum

/-- The value of a key in a table of a state. -/
def State.value? (s : State) : (store : Store) → String → Option store.Value
  | .flags, key => s.flags.get? key
  | .resources, key => s.resources.get? key
  | .vars, key => s.vars.get? key

namespace Effect

/-- A part of the effects, at whatever position, names a key of a table. -/
def Names (es : List Effect) (store : Store) (key : String) : Prop :=
  ∃ position part, part? position (.oneOf es) = some part ∧ part.key? store = some key

variable {e : Effect} {es : List Effect} {s t : State} {store : Store} {key : String}

/-! ## Single writes -/

theorem Write.time_eq (h : Write e s t) : t.time = s.time := by
  cases h <;> rfl

/-- A write changes no key but the one that the effect names. -/
theorem Write.value?_eq (h : Write e s t) (hkey : e.key? store ≠ some key) :
    t.value? store key = s.value? store key := by
  have other : ∀ {name : String}, some name ≠ some key → key ≠ name :=
    fun hne heq => hne (congrArg some heq.symm)
  cases h with
  | setFlag =>
    cases store with
    | flags => exact Table.get?_put_of_ne _ _ (other hkey)
    | resources | vars => rfl
  | addResource | multiplyResource | setResource =>
    cases store with
    | resources => exact Table.get?_put_of_ne _ _ (other hkey)
    | flags | vars => rfl
  | setVariable =>
    cases store with
    | vars => exact Table.get?_put_of_ne _ _ (other hkey)
    | flags | resources => rfl

/-! ## Chains of writes -/

theorem time_of_writes (h : Relation.ReflTransGen (WritesOfAll es) s t) : t.time = s.time := by
  induction h with
  | refl => rfl
  | tail _ hwrite ih =>
    obtain ⟨_, _, _, _, _, hwrite⟩ := hwrite
    exact hwrite.time_eq.trans ih

/-- Writes leave a key alone that no part names. -/
theorem value?_of_writes (h : Relation.ReflTransGen (WritesOfAll es) s t)
    (hkey : ¬ Names es store key) : t.value? store key = s.value? store key := by
  induction h with
  | refl => rfl
  | tail _ hwrite ih =>
    obtain ⟨position, part, hpart, hwrite⟩ := Writes.of_oneOf hwrite
    have hpartKey : part.key? store ≠ some key := fun hname => hkey ⟨position, part, hpart, hname⟩
    exact (hwrite.value?_eq hpartKey).trans ih

/-- What the first effects write is written by some of the effects. -/
theorem writes_take (n : Nat) (d : Draft) (dice : Dice) :
    Relation.ReflTransGen (WritesOfAll es) d.toState
      (applyAll (es.take n) d dice).draft.toState := by
  refine Relation.ReflTransGen.mono ?_ _ _ (writes_applyAll (es.take n) d dice)
  rintro s t ⟨e, he, hwrite⟩
  exact ⟨e, List.mem_of_mem_take he, hwrite⟩

/-! ## The target -/

/-- Effects leave the target as it is or put the target of one of their gotos there. -/
theorem target_of_applyAll (es : List Effect) (d : Draft) (dice : Dice) :
    (applyAll es d dice).draft.target = d.target ∨
      ∃ target ∈ gotosOfAll es, (applyAll es d dice).draft.target = some target := by
  rw [target_applyAll]
  cases hlast : (firedAll es d dice).getLast? with
  | none => exact .inl rfl
  | some target =>
    have hfired : target ∈ firedAll es d dice := List.mem_of_getLast? hlast
    exact .inr ⟨target, firedAll_subset_gotosOfAll es d dice hfired, rfl⟩

/-- After any number of effects, failed or not: the clock stands as before, a key that no part of the
effects names keeps its value or its absence, no key is lost, and the target is the old one or that of
one of the gotos. -/
theorem applyAll_frame (es : List Effect) (n : Nat) (d : Draft) (dice : Dice) :
    let after := (applyAll (es.take n) d dice).draft
    after.time = d.time ∧
      (∀ store key, ¬ Names es store key → after.value? store key = d.value? store key) ∧
      (∀ store, d.keys store ⊆ after.keys store) ∧
      (after.target = d.target ∨ ∃ target ∈ gotosOfAll es, after.target = some target) ∧
      (gotosOfAll es = [] → after.target = d.target) := by
  intro after
  have hwrites : Relation.ReflTransGen (WritesOfAll es) d.toState after.toState :=
    writes_take n d dice
  have htarget : after.target = d.target ∨ ∃ target ∈ gotosOfAll es, after.target = some target := by
    rcases target_of_applyAll (es.take n) d dice with hsame | ⟨target, hmem, hnew⟩
    · exact .inl hsame
    · obtain ⟨e, he, hgoto⟩ := mem_gotosOfAll_iff.1 hmem
      exact .inr ⟨target, mem_gotosOfAll_iff.2 ⟨e, List.mem_of_mem_take he, hgoto⟩, hnew⟩
  refine ⟨time_of_writes hwrites, fun store key => value?_of_writes hwrites,
    fun store => (keys_of_writes hwrites store).1, htarget, fun hnone => ?_⟩
  rcases htarget with hsame | ⟨target, hmem, -⟩
  · exact hsame
  · rw [hnone] at hmem
    cases hmem

end Effect

end Gamebook
