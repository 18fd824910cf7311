import Gamebook.Story
import Gamebook.Text.Blank
import Gamebook.Text.Uppercase

/-!
# Inventories

An inventory holds items of a catalog, in the order in which they were added, each at most once.
Outcomes of choices add and remove items.  The empty id names no item to add, find or remove.
-/

namespace Gamebook

/-- What an outcome does to an inventory. -/
inductive ItemChange where
  | addItem
  | removeItem
  | none
  deriving DecidableEq, Repr

namespace ItemChange

/-- The tag of a change. -/
def tag : ItemChange → String
  | .addItem => "ADD_ITEM"
  | .removeItem => "REMOVE_ITEM"
  | .none => "NONE"

/-- The change that a tag names, in any case and with blanks around it; an unknown tag names
none. -/
def ofTag (s : String) : ItemChange :=
  let word := String.ofList (Text.upper (Text.strip s.toList))
  if word = addItem.tag then .addItem
  else if word = removeItem.tag then .removeItem
  else .none

end ItemChange

/-- An item of a catalog.  The cost is kept as it is given. -/
structure Entity where
  id : String
  brand : String
  description : String
  cost : Datum

/-- Why a datum is no item. -/
inductive EntityError where
  | notObject
  | noId
  deriving DecidableEq, Repr

/-- The wording of the error. -/
def EntityError.message : EntityError → String
  | .notObject => "Entity must be an object"
  | .noId => "'id'"

namespace Entity

/-- Reads an item: its texts are the running texts of the data, and an empty cost is zero. -/
def ofDatum : Datum → Except EntityError Entity
  | .object ms =>
    let textField (name : String) : String :=
      match Datum.member? name ms with
      | some d => String.ofList d.plain
      | none => ""
    match Datum.member? "id" ms with
    | none => .error .noId
    | some id =>
      let cost := (Datum.member? "cost" ms).getD (.int 0)
      .ok {
        id := String.ofList id.plain
        brand := textField "brand"
        description := textField "description"
        cost := if cost.isEmpty then .int 0 else cost }
  | _ => .error .notObject

/-- The datum of an item. -/
def toDatum (e : Entity) : Datum :=
  .object [("id", .text e.id), ("brand", .text e.brand), ("description", .text e.description),
    ("cost", e.cost)]

end Entity

/-- The items that there are, by name. -/
abbrev Catalog := Table Entity

/-- The catalog of a list of items by their ids; the empty id is left out. -/
def Catalog.ofItems (items : List Entity) : Catalog :=
  Table.ofEntries ((items.filter fun e => e.id ≠ "").map fun e => (e.id, e))

/-- The owned items of a catalog. -/
structure Inventory where
  catalog : Catalog
  ids : List String

namespace Inventory

/-- An inventory with some items to begin with, as far as the catalog has them. -/
def withItems (catalog : Catalog) (items : List String) : Inventory :=
  { catalog
    ids := items.foldl
      (fun ids id => if catalog.contains id && !ids.contains id then ids ++ [id] else ids) [] }

/-- Whether an item is owned. -/
def has (inv : Inventory) (id : String) : Bool :=
  id ≠ "" && inv.ids.contains id

/-- The item that an id names. -/
def entity? (inv : Inventory) (id : String) : Option Entity :=
  if id = "" then none else inv.catalog.get? id

/-- Adds an item at the end, unless it is owned; returns the item if there is one. -/
def add (inv : Inventory) (id : String) : Option Entity × Inventory :=
  match inv.entity? id with
  | none => (none, inv)
  | some e =>
    (some e, if inv.ids.contains id then inv else { inv with ids := inv.ids ++ [id] })

/-- Removes an item that is owned and returns it. -/
def remove (inv : Inventory) (id : String) : Option Entity × Inventory :=
  if inv.has id then (inv.catalog.get? id, { inv with ids := inv.ids.filter (· ≠ id) })
  else (none, inv)

/-- Removes all items. -/
def clear (inv : Inventory) : Inventory :=
  { inv with ids := [] }

/-- The owned items. -/
def items (inv : Inventory) : List Entity :=
  inv.ids.filterMap inv.catalog.get?

/-- Applies an outcome; returns whether the inventory changed. -/
def applyOutcome (inv : Inventory) (o : Outcome) : Bool × Inventory :=
  match o.value with
  | none => (false, inv)
  | some id =>
    match ItemChange.ofTag o.type with
    | .addItem =>
      if inv.has id then (false, inv)
      else
        let (added, inv) := inv.add id
        (added.isSome, inv)
    | .removeItem =>
      let (removed, inv) := inv.remove id
      (removed.isSome, inv)
    | .none => (false, inv)

end Inventory

end Gamebook
