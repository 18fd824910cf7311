import Gamebook.Proofs.Goto
import Mathlib.Logic.Relation

/-!
# What effects write

Effects of five kinds write to the tables of a state, each under the key that it names.
`Effect.Write` says what a single effect writes.  However effects nest, applying them is a chain of
writes of their parts, up to the point where a calculation fails, if one does
(`Effect.writes_apply`, `Effect.writes_applyAll`).

So whatever single writes keep is kept.  Here this is used for the keys of the tables: none is lost,
and none is new that no part names (`Effect.keys_of_writes`).
-/

namespace Gamebook

/-- The tables of a state. -/
inductive Store where
  | flags
  | resources
  | vars

/-- The keys of a table of a state. -/
def State.keys (s : State) : Store → List String
  | .flags => s.flags.keys
  | .resources => s.resources.keys
  | .vars => s.vars.keys

namespace Effect

/-- What an effect writes by itself. -/
inductive Write : Effect → State → State → Prop where
  | setFlag {s : State} {key : String} {value : Bool} :
    Write (.setFlag key value) s { s with flags := s.flags.put key (.truth value) }
  | addResource {s : State} {key : String} {delta amount : Number}
      (sum : (s.resource key).amount.add delta = .ok amount) :
    Write (.addResource key delta) s { s with resources := s.resources.put key (.number amount) }
  | multiplyResource {s : State} {key : String} {factor amount : Number}
      (product : (s.resource key).amount.mul factor = .ok amount) :
    Write (.multiplyResource key factor) s
      { s with resources := s.resources.put key (.number amount) }
  | setResource {s : State} {key : String} {value : Number} :
    Write (.setResource key value) s { s with resources := s.resources.put key (.number value) }
  | setVariable {s : State} {key : String} {value : Scalar} :
    Write (.setVariable key value) s { s with vars := s.vars.put key value.toDatum }

/-- What a part of an effect writes, at whatever position. -/
def Writes (e : Effect) (s t : State) : Prop :=
  ∃ position part, part? position e = some part ∧ Write part s t

/-- What one of several effects writes. -/
def WritesOfAll (es : List Effect) (s t : State) : Prop :=
  ∃ e ∈ es, Writes e s t

variable {e : Effect} {es : List Effect} {s t : State}

theorem WritesOfAll.head (h : Writes e s t) : WritesOfAll (e :: es) s t :=
  ⟨e, List.mem_cons_self, h⟩

theorem WritesOfAll.tail (h : WritesOfAll es s t) : WritesOfAll (e :: es) s t := by
  obtain ⟨e', he', h⟩ := h
  exact ⟨e', List.mem_cons_of_mem _ he', h⟩

/-! ## Applying effects -/

theorem Write.self (h : Write e s t) : Writes e s t :=
  ⟨[], e, by simp [part?], h⟩

theorem Writes.of_provided {condition : Condition} (h : Writes e s t) :
    Writes (.provided condition e) s t := by
  obtain ⟨position, part, hpart, hwrite⟩ := h
  exact ⟨0 :: position, part, by simpa [part?] using hpart, hwrite⟩

theorem Writes.of_oneOf (h : WritesOfAll es s t) : Writes (.oneOf es) s t := by
  obtain ⟨e, he, position, part, hpart, hwrite⟩ := h
  obtain ⟨i, hi⟩ := List.mem_iff_getElem?.1 he
  exact ⟨i :: position, part, by simpa [part?, hi] using hpart, hwrite⟩

/-- A change of a resource writes the calculated amount, or nothing if the calculation fails. -/
theorem writes_updateResource (d : Draft) (dice : Dice) {key : String}
    {calculate : Number → Except RangeError Number}
    (h : ∀ amount, calculate (d.resource key).amount = .ok amount →
      Write e d.toState { d.toState with resources := d.resources.put key (.number amount) }) :
    Relation.ReflTransGen (Writes e) d.toState
      (d.updateResource dice key calculate).draft.toState := by
  unfold Draft.updateResource
  split
  · next amount hamount => exact .single (h amount hamount).self
  · exact .refl

mutual

theorem writes_apply : (e : Effect) → (d : Draft) → (dice : Dice) →
    Relation.ReflTransGen (Writes e) d.toState (apply e d dice).draft.toState
  | .setFlag .., _, _ => .single Write.setFlag.self
  | .addResource .., d, dice => writes_updateResource d dice fun _ => .addResource
  | .multiplyResource .., d, dice => writes_updateResource d dice fun _ => .multiplyResource
  | .setResource .., _, _ => .single Write.setResource.self
  | .setVariable .., _, _ => .single Write.setVariable.self
  | .oneOf members, d, dice => by
    rw [apply]
    split
    · exact .refl
    · exact Relation.ReflTransGen.mono (fun _ _ => Writes.of_oneOf) _ _
        (writes_applyNth members _ d _)
  | .provided condition member, d, dice => by
    rw [apply]
    split
    · exact Relation.ReflTransGen.mono (fun _ _ => Writes.of_provided) _ _
        (writes_apply member d dice)
    · exact .refl
    · exact .refl
  | .goto _, _, _ | .verbatim _, _, _ => .refl

theorem writes_applyNth : (es : List Effect) → (n : Nat) → (d : Draft) → (dice : Dice) →
    Relation.ReflTransGen (WritesOfAll es) d.toState (applyNth es n d dice).draft.toState
  | [], _, _, _ => .refl
  | e :: _, 0, d, dice => by
    rw [applyNth]
    split
    · exact .refl
    · exact Relation.ReflTransGen.mono (fun _ _ => WritesOfAll.head) _ _ (writes_apply e d dice)
  | _ :: es, n + 1, d, dice =>
    Relation.ReflTransGen.mono (fun _ _ => WritesOfAll.tail) _ _ (writes_applyNth es n d dice)

end

theorem writes_applyAll (es : List Effect) : ∀ (d : Draft) (dice : Dice),
    Relation.ReflTransGen (WritesOfAll es) d.toState (applyAll es d dice).draft.toState := by
  induction es with
  | nil => exact fun d dice => .refl
  | cons e es ih =>
    intro d dice
    have hfirst : Relation.ReflTransGen (WritesOfAll (e :: es)) d.toState
        (apply e d dice).draft.toState :=
      Relation.ReflTransGen.mono (fun _ _ => WritesOfAll.head) _ _ (writes_apply e d dice)
    rcases ha : apply e d dice with ⟨d', dice', _ | error⟩ <;> rw [ha] at hfirst
    · simp only [applyAll, ha]
      exact hfirst.trans
        (Relation.ReflTransGen.mono (fun _ _ => WritesOfAll.tail) _ _ (ih d' dice'))
    · simp only [applyAll, ha]
      exact hfirst

/-! ## Keys -/

/-- The key that an effect names in a table. -/
def key? : Store → Effect → Option String
  | .flags, .setFlag key _ => some key
  | .resources, .addResource key _ => some key
  | .resources, .multiplyResource key _ => some key
  | .resources, .setResource key _ => some key
  | .vars, .setVariable key _ => some key
  | _, _ => none

theorem key?_flags_eq_some_iff {key : String} :
    key? .flags e = some key ↔ ∃ value, e = .setFlag key value := by
  cases e <;> simp [key?]

theorem key?_resources_eq_some_iff {key : String} : key? .resources e = some key ↔
    ∃ n, e = .addResource key n ∨ e = .multiplyResource key n ∨ e = .setResource key n := by
  cases e <;> simp [key?]

theorem key?_vars_eq_some_iff {key : String} :
    key? .vars e = some key ↔ ∃ value, e = .setVariable key value := by
  cases e <;> simp [key?]

/-- A write gives its table the key that the effect names, and no table another. -/
theorem Write.mem_keys_iff (h : Write e s t) {store : Store} {key : String} :
    key ∈ t.keys store ↔ key ∈ s.keys store ∨ e.key? store = some key := by
  cases h <;> cases store <;> simp [State.keys, key?, Table.mem_keys_put]

/-- Writes lose no key and give no table a key that no part names. -/
theorem keys_of_writes (h : Relation.ReflTransGen (WritesOfAll es) s t) (store : Store) :
    s.keys store ⊆ t.keys store ∧ ∀ key ∈ t.keys store, key ∈ s.keys store ∨
      ∃ position part, part? position (.oneOf es) = some part ∧ part.key? store = some key := by
  induction h with
  | refl => exact ⟨List.Subset.refl _, fun key hkey => .inl hkey⟩
  | tail _ hwrite ih =>
    obtain ⟨position, part, hpart, hwrite⟩ := Writes.of_oneOf hwrite
    obtain ⟨hkept, hnew⟩ := ih
    refine ⟨fun key hkey => hwrite.mem_keys_iff.2 (.inl (hkept hkey)), fun key hkey => ?_⟩
    rcases hwrite.mem_keys_iff.1 hkey with hkey | hkey
    · exact hnew key hkey
    · exact .inr ⟨position, part, hpart, hkey⟩

end Effect

end Gamebook
