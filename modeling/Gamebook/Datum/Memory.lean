import Gamebook.Datum
import Gamebook.Distinct

/-!
# Objects in memory

The objects of a document come to places in memory while it is read.  An object is made after the
values of its members; it takes the place that was vacated last, or a new one.  Then the values
that later members of the same name replace are discarded, and the objects in them vacate their
places.

The names that an object repeats are noted under its place.  The note outlives the object: an
object without repeated names that takes the place of a discarded one stands over the note of that.
-/

namespace Gamebook.Datum

/-- A value in memory, with the places of the objects in it. -/
inductive Placed where
  | scalar
  | list (items : List Placed)
  | object (place : Nat) (members : List (String × Placed))

mutual

/-- The vacant places once a value is discarded: the items of a list from the last to the first, the
members of an object from the first to the last and before the object itself. -/
def Placed.discard : Placed → (vacant : List Nat) → List Nat
  | .scalar, vacant => vacant
  | .list items, vacant => discardItems items vacant
  | .object place members, vacant => place :: discardMembers members vacant

/-- Discards items, the last one first. -/
def discardItems : List Placed → (vacant : List Nat) → List Nat
  | [], vacant => vacant
  | t :: ts, vacant => t.discard (discardItems ts vacant)

/-- Discards the values of members, the first one first. -/
def discardMembers : List (String × Placed) → (vacant : List Nat) → List Nat
  | [], vacant => vacant
  | (_, t) :: ms, vacant => discardMembers ms (t.discard vacant)

end

/-- Discards the values of the members that a later one replaces, the last one first. -/
def discardReplaced : List (String × Placed) → (vacant : List Nat) → List Nat
  | [], vacant => vacant
  | (k, t) :: ms, vacant =>
    if k ∈ ms.map Prod.fst then t.discard (discardReplaced ms vacant)
    else discardReplaced ms vacant

/-- The places in memory: the vacant ones, the last vacated first; the number of those taken so far;
and the repeated names noted under each. -/
structure Memory where
  vacant : List Nat := []
  taken : Nat := 0
  noted : Nat → List String := fun _ => []

namespace Memory

/-- Takes a place. -/
def take (m : Memory) : Nat × Memory :=
  match m.vacant with
  | place :: vacant => (place, { m with vacant })
  | [] => (m.taken, { m with taken := m.taken + 1 })

/-- Notes names under a place; without names the place keeps the note that it has. -/
def note (m : Memory) (place : Nat) (names : List String) : Memory :=
  if names = [] then m
  else { m with noted := fun p => if p = place then names else m.noted p }

/-- Makes an object of members whose values are in memory. -/
def make (m : Memory) (members : List (String × Placed)) : Placed × Memory :=
  let (place, m) := m.take
  let m := m.note place (repeats [] (members.map Prod.fst))
  (.object place (mergeEntries members), { m with vacant := discardReplaced members m.vacant })

end Memory

mutual

/-- Brings a written datum into memory. -/
def place : Datum → Memory → Placed × Memory
  | .list items, m =>
    let (ts, m) := placeItems items m
    (.list ts, m)
  | .object members, m =>
    let (ts, m) := placeMembers members m
    m.make ts
  | _, m => (.scalar, m)

/-- Brings items into memory, the first one first. -/
def placeItems : List Datum → Memory → List Placed × Memory
  | [], m => ([], m)
  | d :: ds, m =>
    let (t, m) := place d m
    let (ts, m) := placeItems ds m
    (t :: ts, m)

/-- Brings the values of members into memory, the first one first. -/
def placeMembers : List (String × Datum) → Memory → List (String × Placed) × Memory
  | [], m => ([], m)
  | (k, d) :: ms, m =>
    let (t, m) := place d m
    let (ts, m) := placeMembers ms m
    ((k, t) :: ts, m)

end

end Gamebook.Datum
