import Gamebook.Proofs.Owned

/-!
# What an inventory holds

An inventory is sound if the ids that it owns are different and in its catalog.  It begins so and stays
so whatever is done to it (`sound_run`).  In a sound inventory every owned id has its item, so an owned
id that can be named is removed with its item and leaves the others in order, and there are as many
items as ids (`holdings_characterization`).

The empty id is the exception.  No operation adds, finds or removes it, but a catalog that is given by
names may list it, and then an inventory can begin with it.  It is owned and denied from then on, until
everything is removed (`nameless_item_denied`).

An outcome is reported as a change exactly if the owned ids change.  What is reported is whether an item
was found, which tells the same in a sound inventory only.  The second time an outcome changes nothing
(`receive_characterization`).
-/

namespace Gamebook.Inventory

/-- Something that is done to an inventory. -/
inductive Operation where
  | add (id : String)
  | remove (id : String)
  | clear
  | receive (outcome : Option Outcome)

/-- Applies an outcome if there is one; returns whether the inventory changed. -/
def receive (inv : Inventory) : Option Outcome → Bool × Inventory
  | some o => inv.applyOutcome o
  | none => (false, inv)

/-- The inventory after an operation. -/
def act (inv : Inventory) : Operation → Inventory
  | .add id => (inv.add id).2
  | .remove id => (inv.remove id).2
  | .clear => inv.clear
  | .receive outcome => (inv.receive outcome).2

/-- The inventory after operations in order. -/
def run (inv : Inventory) (operations : List Operation) : Inventory :=
  operations.foldl act inv

/-- The ids that are owned are different and in the catalog. -/
structure Sound (inv : Inventory) : Prop where
  nodup : inv.ids.Nodup
  known : ∀ id ∈ inv.ids, id ∈ inv.catalog.keys

variable {inv inv' : Inventory} {id : String}

/-! ## Runs -/

theorem change_act (inv : Inventory) (operation : Operation) : Change inv (inv.act operation) := by
  cases operation with
  | add id => exact change_add inv id
  | remove id => exact change_remove inv id
  | clear => exact change_clear inv
  | receive outcome =>
    cases outcome with
    | none => exact .refl inv
    | some o => exact change_applyOutcome inv o

theorem change_run (operations : List Operation) : ∀ inv : Inventory,
    Change inv (inv.run operations) := by
  induction operations with
  | nil => exact .refl
  | cons operation operations ih => exact fun inv => (change_act inv operation).trans (ih _)

theorem Sound.change (h : Sound inv) (hc : Change inv inv') : Sound inv' := by
  refine ⟨hc.nodup h.nodup, fun id hid => ?_⟩
  rw [hc.catalog]
  rcases hc.mem id hid with howned | hitem
  · exact h.known id howned
  · exact (isSome_entity?_iff.1 hitem).2

theorem sound_withItems (catalog : Catalog) (items : List String) : Sound (withItems catalog items) :=
  ⟨(withItems_sound catalog items).1, (withItems_sound catalog items).2⟩

/-- An inventory stays sound whatever is done to it. -/
theorem sound_run (catalog : Catalog) (items : List String) (operations : List Operation) :
    Sound ((withItems catalog items).run operations) :=
  (sound_withItems catalog items).change (change_run operations _)

theorem catalog_run (catalog : Catalog) (items : List String) (operations : List Operation) :
    ((withItems catalog items).run operations).catalog = catalog :=
  (change_run operations _).catalog

/-! ## Sound inventories -/

/-- An id that names an item is owned only if the inventory says so. -/
theorem not_mem_of_not_has (h : inv.has id = false) (hitem : (inv.entity? id).isSome) :
    id ∉ inv.ids := by
  intro howned
  have hhas := has_iff.2 ⟨(isSome_entity?_iff.1 hitem).1, howned⟩
  rw [h] at hhas
  cases hhas

theorem remove_of_not_has (h : inv.has id = false) : inv.remove id = (none, inv) := by
  simp [remove, h]

/-- Every owned id has an item. -/
theorem Sound.exists_item (h : Sound inv) (hid : id ∈ inv.ids) :
    ∃ e, inv.catalog.get? id = some e :=
  Table.mem_keys_iff.1 (h.known id hid)

theorem Sound.length_items (h : Sound inv) : inv.items.length = inv.ids.length := by
  rw [items, List.filterMap_length_eq_length]
  intro id hid
  exact Option.isSome_iff_exists.2 (h.exists_item hid)

/-- An owned id that can be named is removed, and its item is returned. -/
theorem Sound.remove_of_has (h : Sound inv) (hid : inv.has id = true) :
    ∃ e, inv.catalog.get? id = some e ∧
      inv.remove id = (some e, { inv with ids := inv.ids.erase id }) := by
  obtain ⟨e, he⟩ := h.exists_item (has_iff.1 hid).2
  refine ⟨e, he, ?_⟩
  simp only [remove, hid, if_true, he, filter_ne_eq_erase h.nodup id]

/-- What an outcome does: nothing, or it adds its item at the end, or it removes its item. -/
theorem Sound.applyOutcome_cases (h : Sound inv) (o : Outcome) :
    inv.applyOutcome o = (false, inv) ∨ ∃ id, o.value = some id ∧
      (ItemChange.ofTag o.type = .addItem ∧ id ∉ inv.ids ∧ (inv.entity? id).isSome ∧
          inv.applyOutcome o = (true, { inv with ids := inv.ids ++ [id] }) ∨
        ItemChange.ofTag o.type = .removeItem ∧ inv.has id = true ∧
          inv.applyOutcome o = (true, { inv with ids := inv.ids.erase id })) := by
  cases hvalue : o.value with
  | none => exact .inl (by simp [applyOutcome, hvalue])
  | some id =>
    cases htag : ItemChange.ofTag o.type with
    | none => exact .inl (by simp [applyOutcome, hvalue, htag])
    | addItem =>
      cases hhas : inv.has id with
      | true => exact .inl (by simp [applyOutcome, hvalue, htag, hhas])
      | false =>
        cases hitem : inv.entity? id with
        | none => exact .inl (by simp [applyOutcome, hvalue, htag, hhas, add, hitem])
        | some e =>
          have hsome : (inv.entity? id).isSome := Option.isSome_of_eq_some hitem
          have hnew : id ∉ inv.ids := not_mem_of_not_has hhas hsome
          refine .inr ⟨id, rfl, .inl ⟨rfl, hnew, hsome, ?_⟩⟩
          simp [applyOutcome, hvalue, htag, hhas, add, hitem, hnew]
    | removeItem =>
      cases hhas : inv.has id with
      | false => exact .inl (by simp [applyOutcome, hvalue, htag, remove_of_not_has hhas])
      | true =>
        obtain ⟨e, -, hremove⟩ := h.remove_of_has hhas
        refine .inr ⟨id, rfl, .inr ⟨rfl, hhas, ?_⟩⟩
        simp [applyOutcome, hvalue, htag, hremove]

/-- An outcome is reported as a change exactly if the owned ids change. -/
theorem Sound.applyOutcome_reports (h : Sound inv) (o : Outcome) :
    (inv.applyOutcome o).1 = true ↔ (inv.applyOutcome o).2.ids ≠ inv.ids := by
  rcases h.applyOutcome_cases o with heq | ⟨id, -, ⟨-, -, -, heq⟩ | ⟨-, hhas, heq⟩⟩
  · simp [heq]
  · simp [heq]
  · have howned : id ∈ inv.ids := (has_iff.1 hhas).2
    have hlost : id ∉ inv.ids.erase id := h.nodup.not_mem_erase
    have hchanged : inv.ids.erase id ≠ inv.ids := by
      intro hsame
      rw [hsame] at hlost
      exact hlost howned
    simp [heq, hchanged]

/-- The second time an outcome changes nothing. -/
theorem Sound.applyOutcome_again (h : Sound inv) (o : Outcome) :
    (inv.applyOutcome o).2.applyOutcome o = (false, (inv.applyOutcome o).2) := by
  rcases h.applyOutcome_cases o with
    heq | ⟨id, hvalue, ⟨htag, -, hitem, heq⟩ | ⟨htag, -, heq⟩⟩
  · simp only [heq]
  · have howns : has { inv with ids := inv.ids ++ [id] } id = true :=
      has_iff.2 ⟨(isSome_entity?_iff.1 hitem).1, by simp⟩
    simp only [heq]
    simp [applyOutcome, hvalue, htag, howns]
  · have hlost : has { inv with ids := inv.ids.erase id } id = false := by
      simp [has, h.nodup.not_mem_erase]
    simp only [heq]
    simp [applyOutcome, hvalue, htag, remove_of_not_has hlost]

/-! ## The empty id -/

/-- An inventory begins with the ids that its catalog lists. -/
theorem mem_withItems (catalog : Catalog) (items : List String) (id : String) :
    id ∈ (withItems catalog items).ids ↔ id ∈ items ∧ id ∈ catalog.keys := by
  -- the fold keeps what it has and takes the rest as far as the catalog lists it
  have key : ∀ ids : List String, id ∈ items.foldl
      (fun ids id => if catalog.contains id && !ids.contains id then ids ++ [id] else ids) ids ↔
        id ∈ ids ∨ id ∈ items ∧ id ∈ catalog.keys := by
    induction items with
    | nil => simp
    | cons first items ih =>
      intro ids
      rw [List.foldl_cons, ih]
      by_cases heq : id = first
      · subst heq
        by_cases hkey : id ∈ catalog.keys <;> by_cases howned : id ∈ ids <;>
          simp [Table.contains_iff, hkey, howned]
      · split <;> simp [heq]
  simpa [withItems] using key []

/-- Only removing everything removes the empty id, and nothing adds it. -/
theorem Sound.empty_mem_act (h : Sound inv) (operation : Operation) :
    "" ∈ (inv.act operation).ids ↔ "" ∈ inv.ids ∧ operation ≠ .clear := by
  have added : ∀ id : String, id ≠ "" → ("" ∈ inv.ids ++ [id] ↔ "" ∈ inv.ids) := by
    intro id hid
    simp [Ne.symm hid]
  have removed : ∀ id : String, id ≠ "" → ("" ∈ inv.ids.erase id ↔ "" ∈ inv.ids) :=
    fun id hid => List.mem_erase_of_ne (Ne.symm hid)
  cases operation with
  | add id =>
    rw [act, ids_add]
    split
    · next hid => simp [added id hid.1]
    · simp
  | remove id =>
    rw [act, ids_remove h.nodup]
    split
    · next hid => simp [removed id hid.1]
    · simp
  | clear => simp [act, clear]
  | receive outcome =>
    cases outcome with
    | none => simp [act, receive]
    | some o =>
      rcases h.applyOutcome_cases o with heq | ⟨id, -, ⟨-, -, hitem, heq⟩ | ⟨-, hhas, heq⟩⟩
      · simp [act, receive, heq]
      · simp [act, receive, heq, added id (isSome_entity?_iff.1 hitem).1]
      · simp [act, receive, heq, removed id (has_iff.1 hhas).1]

theorem Sound.empty_mem_run (operations : List Operation) : ∀ {inv : Inventory}, Sound inv →
    ("" ∈ (inv.run operations).ids ↔ "" ∈ inv.ids ∧ .clear ∉ operations) := by
  induction operations with
  | nil => simp [run]
  | cons operation operations ih =>
    intro inv h
    have hrest := ih (h.change (change_act inv operation))
    rw [h.empty_mem_act, and_assoc] at hrest
    rw [List.mem_cons, not_or, @eq_comm _ Operation.clear operation]
    exact hrest

/-- A catalog of items does not list the empty id. -/
theorem empty_not_mem_ofItems (items : List Entity) : "" ∉ (Catalog.ofItems items).keys := by
  intro h
  rw [Catalog.ofItems, Table.ofEntries, Table.mem_keys_putAll] at h
  rcases h with h | h
  · cases h
  · obtain ⟨⟨key, e⟩, he, rfl⟩ := List.mem_map.1 h
    obtain ⟨e', he', heq⟩ := List.mem_map.1 he
    have hname : e'.id ≠ "" := by simpa using (List.mem_filter.1 he').2
    exact hname (congrArg Prod.fst heq)

/-! ## Main results -/

/-- Whatever is done to an inventory, its ids are different and in its catalog, those that can be named
are owned, and there are as many items as ids.  Adding an item puts its id at the end unless it is
owned; removing an owned id returns its item and keeps the other ids in order.  The empty id is owned
only if it was there from the beginning, for which the catalog has to list it, and a catalog of items
does not. -/
theorem holdings_characterization (catalog : Catalog) (items : List String)
    (operations : List Operation) :
    let inv := (withItems catalog items).run operations
    inv.ids.Nodup ∧ (∀ id ∈ inv.ids, id ∈ catalog.keys) ∧
      (∀ id, inv.has id = true ↔ id ∈ inv.ids ∧ id ≠ "") ∧
      ("" ∈ inv.ids ↔ "" ∈ items ∧ "" ∈ catalog.keys ∧ .clear ∉ operations) ∧
      (∀ id, (inv.add id).2.ids =
        if id ≠ "" ∧ id ∈ catalog.keys ∧ id ∉ inv.ids then inv.ids ++ [id] else inv.ids) ∧
      (∀ id, inv.has id = true → ∃ e, catalog.get? id = some e ∧
        inv.remove id = (some e, { inv with ids := inv.ids.erase id })) ∧
      (∀ id, inv.has id = false → inv.remove id = (none, inv)) ∧
      inv.items.length = inv.ids.length ∧
      ∀ entities : List Entity, "" ∉ (Catalog.ofItems entities).keys := by
  intro inv
  have hsound : Sound inv := sound_run catalog items operations
  have hcatalog : inv.catalog = catalog := catalog_run catalog items operations
  refine ⟨hsound.nodup, fun id hid => hcatalog ▸ hsound.known id hid, fun id => ?_, ?_, fun id => ?_,
    fun id hid => ?_, fun id => remove_of_not_has, hsound.length_items, empty_not_mem_ofItems⟩
  · rw [has_iff, and_comm]
  · rw [(sound_withItems catalog items).empty_mem_run, mem_withItems, and_assoc]
  · rw [ids_add, hcatalog]
  · exact hcatalog ▸ hsound.remove_of_has hid

/-- A catalog that lists an item under the empty id. -/
def namelessCatalog : Catalog :=
  .ofEntries [("", ⟨"lamp", "", "", .int 0⟩)]

/-- An inventory that begins with the empty id owns it, but denies so and does not remove it. -/
theorem nameless_item_denied :
    let inv := withItems namelessCatalog [""]
    "" ∈ inv.ids ∧ inv.has "" = false ∧ inv.remove "" = (none, inv) :=
  ⟨by decide, by decide, rfl⟩

/-- Whatever has been done to an inventory, an outcome is reported as a change exactly if the owned ids
change.  They become what can be told beforehand: the outcome's value is added at the end or removed, or
nothing happens, and the other ids stay in order.  The second time the outcome changes nothing. -/
theorem receive_characterization (catalog : Catalog) (items : List String)
    (operations : List Operation) (outcome : Option Outcome) :
    let inv := (withItems catalog items).run operations
    let after := (inv.receive outcome).2
    ((inv.receive outcome).1 = true ↔ after.ids ≠ inv.ids) ∧
      after.ids = inv.idsAfter ItemChange.word outcome ∧
      (after.ids = inv.ids ∨ ∃ id, outcome.bind Outcome.value = some id ∧
        (id ∉ inv.ids ∧ after.ids = inv.ids ++ [id] ∨
          id ∈ inv.ids ∧ after.ids = inv.ids.erase id)) ∧
      after.receive outcome = (false, after) := by
  intro inv after
  have hsound : Sound inv := sound_run catalog items operations
  cases outcome with
  | none => exact ⟨by simp [after, receive], rfl, .inl rfl, rfl⟩
  | some o =>
    refine ⟨hsound.applyOutcome_reports o, ids_applyOutcome hsound.nodup o, ?_,
      hsound.applyOutcome_again o⟩
    have hafter : after = (inv.applyOutcome o).2 := rfl
    rcases hsound.applyOutcome_cases o with
      heq | ⟨id, hvalue, ⟨-, hnew, -, heq⟩ | ⟨-, hhas, heq⟩⟩
    · exact .inl (by rw [hafter, heq])
    · exact .inr ⟨id, hvalue, .inl ⟨hnew, by rw [hafter, heq]⟩⟩
    · exact .inr ⟨id, hvalue, .inr ⟨(has_iff.1 hhas).2, by rw [hafter, heq]⟩⟩

end Gamebook.Inventory
