import Gamebook.Inventory
import Mathlib.Data.List.Nodup

/-!
# Owned items

Whatever is done to an inventory, its catalog stays, no id is owned twice, and an id comes to be owned
only if it names an item.  `Inventory.Change` says so of one operation or of several, and what is owned
after an operation can be told beforehand (`ids_add`, `ids_remove`, `ids_applyOutcome`).

An inventory whose ids are different and all name items is restorable: adding its ids one after the
other puts it together again (`Inventory.Restorable.foldl_add_clear`).  It stays so through changes.
-/

namespace Gamebook

namespace ItemChange

/-- A tag in upper case, without the blanks around it. -/
def word (tag : String) : String :=
  String.ofList (Text.upper (Text.strip tag.toList))

theorem ofTag_eq (tag : String) : ofTag tag =
    if word tag = "ADD_ITEM" then addItem
    else if word tag = "REMOVE_ITEM" then removeItem
    else none :=
  rfl

end ItemChange

namespace Inventory

/-- A change that operations can make. -/
structure Change (inv inv' : Inventory) : Prop where
  catalog : inv'.catalog = inv.catalog
  nodup : inv.ids.Nodup → inv'.ids.Nodup
  mem : ∀ id ∈ inv'.ids, id ∈ inv.ids ∨ (inv.entity? id).isSome

/-- The ids that are owned are different and name items. -/
structure Restorable (inv : Inventory) : Prop where
  nodup : inv.ids.Nodup
  items : ∀ id ∈ inv.ids, (inv.entity? id).isSome

/-- The ids that are going to be owned after an outcome, where `word` says how its tag is read. -/
def idsAfter (word : String → String) (inv : Inventory) : Option Outcome → List String
  | some ⟨tag, some id⟩ =>
    if word tag = "ADD_ITEM" ∧ id ≠ "" ∧ id ∈ inv.catalog.keys ∧ id ∉ inv.ids then inv.ids ++ [id]
    else if word tag = "REMOVE_ITEM" ∧ id ≠ "" ∧ id ∈ inv.ids then inv.ids.erase id
    else inv.ids
  | _ => inv.ids

variable {inv inv' : Inventory} {id : String}

theorem isSome_entity?_iff : (inv.entity? id).isSome ↔ id ≠ "" ∧ id ∈ inv.catalog.keys := by
  unfold entity?
  by_cases h : id = ""
  · simp [h]
  · simp [h, Table.mem_keys_iff, Option.isSome_iff_exists]

theorem entity?_congr (h : inv'.catalog = inv.catalog) (id : String) :
    inv'.entity? id = inv.entity? id := by
  unfold entity?
  rw [h]

namespace Change

theorem refl (inv : Inventory) : Change inv inv :=
  ⟨rfl, fun h => h, fun _ h => .inl h⟩

theorem trans {inv'' : Inventory} (h : Change inv inv') (h' : Change inv' inv'') :
    Change inv inv'' where
  catalog := h'.catalog.trans h.catalog
  nodup hn := h'.nodup (h.nodup hn)
  mem id hid := by
    rcases h'.mem id hid with hid | hid
    · exact h.mem id hid
    · exact .inr (entity?_congr h.catalog id ▸ hid)

end Change

/-! ## Operations -/

theorem change_add (inv : Inventory) (id : String) : Change inv (inv.add id).2 := by
  unfold add
  split
  · exact .refl inv
  · next e he =>
    split
    · exact .refl inv
    · next howned =>
      rw [List.contains_iff_mem] at howned
      refine ⟨rfl, fun hn => ?_, fun id' hid' => ?_⟩
      · exact hn.append (List.nodup_singleton id) (List.disjoint_singleton.2 howned)
      · rcases List.mem_append.1 hid' with hid' | hid'
        · exact .inl hid'
        · obtain rfl := List.mem_singleton.1 hid'
          exact .inr (Option.isSome_of_eq_some he)

theorem change_remove (inv : Inventory) (id : String) : Change inv (inv.remove id).2 := by
  unfold remove
  split
  · exact ⟨rfl, fun hn => hn.filter _, fun id' hid' => .inl (List.mem_filter.1 hid').1⟩
  · exact .refl inv

theorem change_clear (inv : Inventory) : Change inv inv.clear :=
  ⟨rfl, fun _ => List.nodup_nil, nofun⟩

theorem change_applyOutcome (inv : Inventory) (o : Outcome) :
    Change inv (inv.applyOutcome o).2 := by
  unfold applyOutcome
  split
  · exact .refl inv
  · next id _ =>
    split
    · split
      · exact .refl inv
      · exact change_add inv id
    · exact change_remove inv id
    · exact .refl inv

theorem change_foldl_add (ids : List String) :
    ∀ inv : Inventory, Change inv (ids.foldl (fun inv id => (inv.add id).2) inv) := by
  induction ids with
  | nil => exact .refl
  | cons id ids ih => exact fun inv => (change_add inv id).trans (ih _)

/-! ## The owned ids after an operation -/

theorem has_iff : inv.has id = true ↔ id ≠ "" ∧ id ∈ inv.ids := by
  simp [has]

theorem ids_add (inv : Inventory) (id : String) : (inv.add id).2.ids =
    if id ≠ "" ∧ id ∈ inv.catalog.keys ∧ id ∉ inv.ids then inv.ids ++ [id] else inv.ids := by
  simp only [← and_assoc, ← isSome_entity?_iff]
  unfold add
  cases inv.entity? id with
  | none => simp
  | some e => by_cases howned : id ∈ inv.ids <;> simp [howned]

/-- Removing an id that is owned once keeps the others in order. -/
theorem filter_ne_eq_erase {ids : List String} (h : ids.Nodup) (id : String) :
    ids.filter (· ≠ id) = ids.erase id := by
  rw [h.erase_eq_filter]
  exact List.filter_congr fun other _ => Bool.eq_iff_iff.2 (by simp)

theorem ids_remove (h : inv.ids.Nodup) (id : String) : (inv.remove id).2.ids =
    if id ≠ "" ∧ id ∈ inv.ids then inv.ids.erase id else inv.ids := by
  simp only [← has_iff]
  unfold remove
  split
  · exact filter_ne_eq_erase h id
  · rfl

/-- What is owned after an outcome is what was foretold. -/
theorem ids_applyOutcome (h : inv.ids.Nodup) (o : Outcome) :
    (inv.applyOutcome o).2.ids = inv.idsAfter ItemChange.word (some o) := by
  obtain ⟨tag, value⟩ := o
  cases value with
  | none => rfl
  | some id =>
    unfold applyOutcome idsAfter
    simp only [ItemChange.ofTag_eq]
    by_cases hadd : ItemChange.word tag = "ADD_ITEM"
    · simp only [hadd, if_true, true_and]
      split
      · next howned =>
        obtain ⟨-, howned⟩ := has_iff.1 howned
        simp [howned]
      · rw [ids_add]
        simp
    · by_cases hremove : ItemChange.word tag = "REMOVE_ITEM"
      · simp [hremove, ids_remove h]
      · simp [hadd, hremove]

/-! ## The beginning -/

/-- An inventory begins with different ids that are in its catalog. -/
theorem withItems_sound (catalog : Catalog) (items : List String) :
    (withItems catalog items).ids.Nodup ∧
      ∀ id ∈ (withItems catalog items).ids, id ∈ catalog.keys := by
  refine List.foldlRecOn (motive := fun ids => ids.Nodup ∧ ∀ id ∈ ids, id ∈ catalog.keys) items _
    ⟨List.nodup_nil, List.forall_mem_nil _⟩ fun ids ⟨hn, hknown⟩ id _ => ?_
  split
  · next h =>
    simp only [Bool.and_eq_true, Table.contains_iff, Bool.not_eq_true', List.contains_eq_mem,
      decide_eq_false_iff_not] at h
    refine ⟨hn.append (List.nodup_singleton id) (List.disjoint_singleton.2 h.2), ?_⟩
    exact List.forall_mem_append.2 ⟨hknown, List.forall_mem_singleton.2 h.1⟩
  · exact ⟨hn, hknown⟩

/-! ## Putting an inventory together again -/

theorem foldl_add (ids : List String) : ∀ inv : Inventory, (inv.ids ++ ids).Nodup →
    (∀ id ∈ ids, (inv.entity? id).isSome) →
    ids.foldl (fun inv id => (inv.add id).2) inv = { inv with ids := inv.ids ++ ids } := by
  induction ids with
  | nil => simp
  | cons id ids ih =>
    intro inv hn hitems
    obtain ⟨e, he⟩ := Option.isSome_iff_exists.1 (hitems id List.mem_cons_self)
    have hnew : id ∉ inv.ids := by
      intro howned
      exact (List.nodup_append.1 hn).2.2 id howned id List.mem_cons_self rfl
    have hadd : (inv.add id).2 = { inv with ids := inv.ids ++ [id] } := by
      simp [add, he, hnew]
    have hrest := ih { inv with ids := inv.ids ++ [id] } (List.append_cons .. ▸ hn)
      fun id' hid' => hitems id' (List.mem_cons_of_mem _ hid')
    rw [List.foldl_cons, hadd, hrest, List.append_cons inv.ids id ids]

namespace Restorable

theorem change (h : Restorable inv) (hc : inv.Change inv') : Restorable inv' := by
  refine ⟨hc.nodup h.nodup, fun id hid => ?_⟩
  rw [entity?_congr hc.catalog]
  exact (hc.mem id hid).elim (h.items id) fun hitem => hitem

/-- An inventory is what adding its ids to the empty inventory of its catalog gives. -/
theorem foldl_add_clear (h : Restorable inv) (hcatalog : inv'.catalog = inv.catalog) :
    inv.ids.foldl (fun inv id => (inv.add id).2) inv'.clear = inv := by
  have hsame : inv'.clear = inv.clear := by
    unfold clear
    rw [hcatalog]
  rw [hsame, foldl_add inv.ids inv.clear h.nodup h.items]
  rfl

end Restorable

end Inventory

end Gamebook
