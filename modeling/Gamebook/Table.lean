/-!
# Tables with a written order

A table gives names values and keeps the names in the order in which they were first given one.
`put` changes the value of a name in its place and appends a new name; `keys_put` says what that
does to the names, so no name occurs twice in a table.
-/

namespace Gamebook

/-- Gives a name a value in a list of entries: in its place if it has one, at the end
otherwise. -/
def putEntry {α : Type} (name : String) (value : α) : List (String × α) → List (String × α)
  | [] => [(name, value)]
  | (k, v) :: rest => if k = name then (k, value) :: rest else (k, v) :: putEntry name value rest

/-- Keeps the first position and the last value of each name. -/
def mergeEntries {α : Type} (entries : List (String × α)) : List (String × α) :=
  entries.foldl (fun acc e => putEntry e.1 e.2 acc) []

theorem keys_putEntry {α : Type} (name : String) (value : α) (es : List (String × α)) :
    (putEntry name value es).map Prod.fst =
      if name ∈ es.map Prod.fst then es.map Prod.fst else es.map Prod.fst ++ [name] := by
  induction es with
  | nil => rfl
  | cons e es ih =>
    obtain ⟨k, v⟩ := e
    by_cases h : k = name
    · simp [putEntry, h]
    · have h' : ¬ name = k := fun e => h e.symm
      by_cases hm : name ∈ es.map Prod.fst <;> simp_all [putEntry]

theorem nodup_putEntry {α : Type} {es : List (String × α)} (h : (es.map Prod.fst).Nodup)
    (name : String) (value : α) : ((putEntry name value es).map Prod.fst).Nodup := by
  rw [keys_putEntry]
  split
  · exact h
  · next hn =>
    rw [List.nodup_append]
    refine ⟨h, by simp, ?_⟩
    intro a ha b hb hab
    rw [List.mem_singleton] at hb
    exact hn (hb ▸ hab ▸ ha)

theorem lookup_putEntry {α : Type} (name : String) (value : α) (es : List (String × α))
    (other : String) :
    (putEntry name value es).lookup other =
      if other = name then some value else es.lookup other := by
  induction es with
  | nil => by_cases h : other = name <;> simp [putEntry, h]
  | cons e es ih =>
    obtain ⟨k, v⟩ := e
    by_cases h : other = k
    · subst h
      by_cases hk : other = name <;> simp [putEntry, hk]
    · have hb : (other == k) = false := beq_eq_false_iff_ne.2 h
      by_cases hk : k = name
      · subst hk
        simp [putEntry, List.lookup_cons, hb, h]
      · simp [putEntry, hk, List.lookup_cons, hb, ih]

theorem lookup_eq_some_iff_mem {α : Type} {es : List (String × α)} (h : (es.map Prod.fst).Nodup)
    {name : String} {value : α} : es.lookup name = some value ↔ (name, value) ∈ es := by
  induction es with
  | nil => simp
  | cons e es ih =>
    obtain ⟨k, v⟩ := e
    rw [List.map_cons, List.nodup_cons] at h
    rw [List.lookup_cons, List.mem_cons]
    by_cases hk : name = k
    · subst hk
      -- no later entry has the name of the first one
      have hn : (name, value) ∉ es := fun hm => h.1 (List.mem_map.2 ⟨_, hm, rfl⟩)
      simp [hn, eq_comm]
    · have hb : (name == k) = false := beq_eq_false_iff_ne.2 hk
      simp [hb, hk, ih h.2]

/-- Names with values, in the order in which the names were first given one. -/
structure Table (α : Type) where
  entries : List (String × α)
  nodup : (entries.map Prod.fst).Nodup

namespace Table

variable {α β : Type}

/-- The table without names. -/
def empty : Table α := ⟨[], List.nodup_nil⟩

instance : Inhabited (Table α) := ⟨empty⟩

instance : EmptyCollection (Table α) := ⟨empty⟩

/-- The names in order. -/
def keys (t : Table α) : List String :=
  t.entries.map Prod.fst

/-- The value of a name. -/
def get? (t : Table α) (name : String) : Option α :=
  t.entries.lookup name

/-- Whether a name has a value. -/
def contains (t : Table α) (name : String) : Bool :=
  t.keys.contains name

/-- Gives a name a value: in its place if it has one, at the end otherwise. -/
def put (t : Table α) (name : String) (value : α) : Table α :=
  ⟨putEntry name value t.entries, nodup_putEntry t.nodup name value⟩

/-- The number of names. -/
def size (t : Table α) : Nat :=
  t.entries.length

/-- A table with further entries put into it, from the first to the last. -/
def putAll (t : Table α) (entries : List (String × α)) : Table α :=
  entries.foldl (fun acc e => acc.put e.1 e.2) t

/-- The table of some entries; of entries with one name the first gives the position and the
last the value. -/
def ofEntries (entries : List (String × α)) : Table α :=
  empty.putAll entries

/-- A table with the entries of another put into it. -/
def override (t other : Table α) : Table α :=
  t.putAll other.entries

/-- Changes the values, given their names. -/
def mapWithKey (f : String → α → β) (t : Table α) : Table β :=
  ⟨t.entries.map fun e => (e.1, f e.1 e.2), by
    have : (t.entries.map fun e => (e.1, f e.1 e.2)).map Prod.fst = t.entries.map Prod.fst := by
      rw [List.map_map]; rfl
    rw [this]; exact t.nodup⟩

/-- Changes the values. -/
def map (f : α → β) (t : Table α) : Table β :=
  t.mapWithKey fun _ => f

theorem eq_of_entries {s t : Table α} (h : s.entries = t.entries) : s = t := by
  cases s
  cases t
  cases h
  rfl

@[simp] theorem get?_empty (name : String) : (∅ : Table α).get? name = none := rfl

theorem contains_iff {t : Table α} {name : String} : t.contains name = true ↔ name ∈ t.keys := by
  unfold contains
  rw [List.contains_iff_mem]

/-- The value of a name is the one that stands beside it. -/
theorem get?_eq_some_iff {t : Table α} {name : String} {value : α} :
    t.get? name = some value ↔ (name, value) ∈ t.entries :=
  lookup_eq_some_iff_mem t.nodup

theorem mem_keys_iff {t : Table α} {name : String} :
    name ∈ t.keys ↔ ∃ value, t.get? name = some value := by
  unfold keys
  simp only [get?_eq_some_iff, List.mem_map, Prod.exists, exists_and_right, exists_eq_right]

theorem get?_eq_none_iff {t : Table α} {name : String} :
    t.get? name = none ↔ name ∉ t.keys := by
  rw [mem_keys_iff]
  cases t.get? name <;> simp

theorem get?_put (t : Table α) (name : String) (value : α) (other : String) :
    (t.put name value).get? other = if other = name then some value else t.get? other :=
  lookup_putEntry name value t.entries other

@[simp] theorem get?_put_self (t : Table α) (name : String) (value : α) :
    (t.put name value).get? name = some value := by
  rw [get?_put, if_pos rfl]

theorem get?_put_of_ne (t : Table α) (value : α) {name other : String} (h : other ≠ name) :
    (t.put name value).get? other = t.get? other := by
  rw [get?_put, if_neg h]

theorem mem_keys_put {t : Table α} {name key : String} {value : α} :
    key ∈ (t.put name value).keys ↔ key ∈ t.keys ∨ name = key := by
  simp only [mem_keys_iff, get?_put]
  by_cases h : key = name
  · simp [h]
  · simp [h, Ne.symm h]

theorem mem_keys_putAll {key : String} (es : List (String × α)) : ∀ t : Table α,
    key ∈ (t.putAll es).keys ↔ key ∈ t.keys ∨ key ∈ es.map Prod.fst := by
  induction es with
  | nil => simp [putAll]
  | cons e es ih =>
    intro t
    show key ∈ ((t.put e.1 e.2).putAll es).keys ↔ _
    rw [ih, mem_keys_put, List.map_cons, List.mem_cons, or_assoc, eq_comm]

@[simp] theorem keys_mapWithKey (f : String → α → β) (t : Table α) :
    (t.mapWithKey f).keys = t.keys := by
  unfold keys mapWithKey
  rw [List.map_map]
  rfl

theorem get?_mapWithKey (f : String → α → β) (t : Table α) (name : String) :
    (t.mapWithKey f).get? name = (t.get? name).map (f name) := by
  show (t.entries.map fun e => (e.1, f e.1 e.2)).lookup name = (t.entries.lookup name).map (f name)
  induction t.entries with
  | nil => rfl
  | cons e es ih =>
    obtain ⟨k, v⟩ := e
    by_cases h : name = k
    · subst h
      simp
    · have hb : (name == k) = false := beq_eq_false_iff_ne.2 h
      simp [List.lookup_cons, hb, ih]

end Table

end Gamebook
