import Gamebook.Number
import Gamebook.Table

/-!
# Document data

The value of a JSON document: null, a truth value, a number, a text, a list or an object.
Objects keep their members in the order in which they were written; numbers keep the kind in
which they were written.

A document may write the same member twice.  `settle` keeps the first position and the last
value of each name, in every object of a datum; the other functions expect settled data.
-/

namespace Gamebook

/-- A value of a document. -/
inductive Datum where
  | null
  | truth (value : Bool)
  | number (value : Number)
  | text (value : String)
  | list (items : List Datum)
  | object (members : List (String × Datum))
  deriving Inhabited

namespace Datum

/-- An integer. -/
def int (n : Int) : Datum :=
  .number (.int n)

mutual

/-- Merges repeated members everywhere in a datum. -/
def settle : Datum → Datum
  | .list items => .list (settleItems items)
  | .object members => .object (mergeEntries (settleMembers members))
  | d => d

/-- Settles each item. -/
def settleItems : List Datum → List Datum
  | [] => []
  | d :: ds => settle d :: settleItems ds

/-- Settles the value of each member. -/
def settleMembers : List (String × Datum) → List (String × Datum)
  | [] => []
  | (k, d) :: ms => (k, settle d) :: settleMembers ms

end

/-- The value of a member. -/
def member? (name : String) (members : List (String × Datum)) : Option Datum :=
  members.lookup name

/-- The value of a member, with null for a missing one. -/
def memberOrNull (name : String) (members : List (String × Datum)) : Datum :=
  (members.lookup name).getD .null

@[simp] theorem member?_cons (name k : String) (d : Datum) (ms : List (String × Datum)) :
    member? name ((k, d) :: ms) = if name = k then some d else member? name ms := by
  by_cases h : name = k
  · simp [member?, h]
  · simp [member?, List.lookup_cons, h, beq_eq_false_iff_ne.2 h]

@[simp] theorem memberOrNull_cons (name k : String) (d : Datum) (ms : List (String × Datum)) :
    memberOrNull name ((k, d) :: ms) = if name = k then d else memberOrNull name ms := by
  show (member? name ((k, d) :: ms)).getD .null = _
  rw [member?_cons]
  split <;> rfl

/-- The value of the last member with a name. -/
def lastMember? (name : String) (members : List (String × Datum)) : Option Datum :=
  members.reverse.lookup name

/-- Whether a datum is empty: null, false, zero, or without characters, items or members. -/
def isEmpty : Datum → Bool
  | .null => true
  | .truth b => !b
  | .number n => n.isZero
  | .text s => s.isEmpty
  | .list items => items.isEmpty
  | .object members => members.isEmpty

/-- The name of the kind of a datum, as messages use it. -/
def kindName : Datum → String
  | .null => "NoneType"
  | .truth _ => "bool"
  | .number (.int _) => "int"
  | .number (.float _) => "float"
  | .text _ => "str"
  | .list _ => "list"
  | .object _ => "dict"

end Datum

end Gamebook
