import Gamebook.Form
import Mathlib.Data.List.Forall2

/-!
# What is relied on of checks

Any checker can be in use.  What is relied on of it is stated here as laws, and each result says which
of them it needs:

* `Checker.KeepsStories`, `Checker.KeepsSessions`: a document in which every value has exactly the type
  of its field is kept as it is.
* `Checker.PassesOn`: what stands for conditions and effects is passed on as it is in the document.
* `Checker.RefusesStories`: a story document that is not kept is refused with faults.

The first two say nothing of documents with values of other types, which a checker may refuse or read
as something else.  The types of the fields are those of `Document.IsStory` and `Document.IsSession`.
-/

namespace Gamebook

/-- A datum stands somewhere in another one. -/
inductive Datum.Within (part : Datum) : Datum → Prop where
  | here : Within part part
  | item {items : List Datum} {d : Datum} (hd : d ∈ items) (h : Within part d) :
    Within part (.list items)
  | member {members : List (String × Datum)} {name : String} {d : Datum}
      (hd : (name, d) ∈ members) (h : Within part d) : Within part (.object members)

namespace Document

variable {α : Type}

/-! ## Values of exactly the right types -/

/-- A datum is a text. -/
def IsText (d : Datum) (s : String) : Prop :=
  d = .text s

/-- A datum is a truth value. -/
def IsTruth (d : Datum) (b : Bool) : Prop :=
  d = .truth b

/-- A datum is a number of either kind. -/
def IsNumber (d : Datum) (n : Number) : Prop :=
  d = .number n

/-- A datum is an integer. -/
def IsInteger (d : Datum) (n : Int) : Prop :=
  d = .int n

/-- A datum is a text, a number or a truth value. -/
def IsScalar (d : Datum) (x : Scalar) : Prop :=
  d = x.toDatum

/-- A datum is an object or a text, and stands for itself. -/
def IsObjectOrText (d item : Datum) : Prop :=
  item = d ∧ ((∃ ms, d = .object ms) ∨ ∃ s, d = .text s)

/-- A datum is null, which stands for a value, or has a type. -/
inductive OrNull (value : α) (Is : Datum → α → Prop) : Datum → α → Prop where
  | null : OrNull value Is .null value
  | kept {d : Datum} {a : α} (hd : d ≠ .null) (h : Is d a) : OrNull value Is d a

/-- A datum is null, which stands for nothing, or has a type. -/
def IsOptional (Is : Datum → α → Prop) : Datum → Option α → Prop :=
  OrNull none fun d o => ∃ a, o = some a ∧ Is d a

/-- A datum is a list of items that have a type. -/
def IsList (Is : Datum → α → Prop) (d : Datum) (as : List α) : Prop :=
  ∃ items, d = .list items ∧ List.Forall₂ Is items as

/-- A datum is an object with values that have a type. -/
def IsTable (Is : Datum → α → Prop) (d : Datum) (t : Table α) : Prop :=
  ∃ ms, d = .object ms ∧ List.Forall₂ (fun m e => m.1 = e.1 ∧ Is m.2 e.2) ms t.entries

/-- A datum is an object that makes up something. -/
def IsObject (Is : List (String × Datum) → α → Prop) (d : Datum) (a : α) : Prop :=
  ∃ ms, d = .object ms ∧ Is ms a

/-- The datum under the first of its names that there is has the type of a field, or there is none and
the field has a default. -/
def HasField (names : List String) (default : Option α) (Is : Datum → α → Prop)
    (ms : List (String × Datum)) (a : α) : Prop :=
  match names.findSome? fun name => Datum.member? name ms with
  | some d => Is d a
  | none => default = some a

/-! ## Documents of exactly the right types -/

/-- The members of an outcome. -/
structure IsOutcome (ms : List (String × Datum)) (o : Outcome) : Prop where
  type : HasField ["type"] none IsText ms o.type
  value : HasField ["value"] (some none) (IsOptional IsText) ms o.value

/-- The members of a choice. -/
structure IsChoice (ms : List (String × Datum)) (c : ChoiceForm) : Prop where
  id : HasField ["id"] none IsText ms c.id
  text : HasField ["text"] (some "") (OrNull "" IsText) ms c.text
  target : HasField ["target"] (some "") (OrNull "" IsText) ms c.target
  conditions : HasField ["conditions"] (some []) (OrNull [] (IsList IsObjectOrText)) ms c.conditions
  effects : HasField ["effects"] (some []) (OrNull [] (IsList IsObjectOrText)) ms c.effects
  outcome : HasField ["outcome"] (some none) (IsOptional (IsObject IsOutcome)) ms c.outcome

/-- The members of a node. -/
structure IsNode (ms : List (String × Datum)) (n : NodeForm) : Prop where
  id : HasField ["id"] (some none) (IsOptional IsText) ms n.id
  text : HasField ["text"] (some "") (OrNull "" IsText) ms n.text
  choices : HasField ["choices"] (some []) (OrNull [] (IsList (IsObject IsChoice))) ms n.choices

/-- The members of a story. -/
structure IsStory (ms : List (String × Datum)) (s : StoryForm) : Prop where
  kind : HasField ["modelType", "model_type"] (some "") IsText ms s.kind
  start : HasField ["startNode", "start_node"] none IsText ms s.start
  flags : HasField ["flags"] (some ∅) (OrNull ∅ (IsTable IsTruth)) ms s.flags
  resources : HasField ["resources"] (some ∅) (OrNull ∅ (IsTable IsNumber)) ms s.resources
  nodes : HasField ["nodes"] none (IsTable (IsObject IsNode)) ms s.nodes

/-- The members of a saved session. -/
structure IsSession (ms : List (String × Datum)) (s : SessionForm) : Prop where
  node : HasField ["nodeId", "node_id"] none IsText ms s.node
  flags : HasField ["flags"] (some ∅) (IsTable IsTruth) ms s.flags
  resources : HasField ["resources"] (some ∅) (IsTable IsNumber) ms s.resources
  vars : HasField ["variables"] (some ∅) (IsTable IsScalar) ms s.vars
  time : HasField ["time"] (some 0) IsInteger ms s.time

/-! ## Conditions and effects in forms -/

/-- What stands for the conditions and effects of a choice. -/
def ChoiceForm.data (c : ChoiceForm) : List Datum :=
  c.conditions ++ c.effects

/-- What stands for the conditions and effects of a node. -/
def NodeForm.data (n : NodeForm) : List Datum :=
  n.choices.flatMap ChoiceForm.data

/-- What stands for the conditions and effects of a story. -/
def StoryForm.data (s : StoryForm) : List Datum :=
  s.nodes.entries.flatMap fun e => e.2.data

end Document

/-! ## The laws -/

namespace Checker

open Document

/-- A story document in which every value has exactly the type of its field is kept as it is. -/
def KeepsStories (checker : Checker) : Prop :=
  ∀ d form, IsObject IsStory d form → checker.story d = .ok form

/-- A saved session in which every value has exactly the type of its field is kept as it is. -/
def KeepsSessions (checker : Checker) : Prop :=
  ∀ d form, IsObject IsSession d form → checker.session d = .ok form

/-- What stands for conditions and effects is passed on as it is in the document. -/
def PassesOn (checker : Checker) : Prop :=
  ∀ d form, checker.story d = .ok form → ∀ part ∈ form.data, part.Within d

/-- A story document that is not kept is refused with faults. -/
def RefusesStories (checker : Checker) : Prop :=
  ∀ d e, checker.story d = .error e → ∃ faults, e = .faults faults

end Checker

end Gamebook
