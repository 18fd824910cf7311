import Gamebook.Form
import Gamebook.Number.Spelled

/-!
# Schemas

A checker that goes by schemas.  Checking does not stop at the first fault: `both` combines two checks
and keeps the faults of both, in order, so that a document is refused with everything that is wrong with
its form.

Values are taken generously: numbers and words spell truth values, texts spell numbers.

`Schema.checker` is the checker that the program is run with.
-/

namespace Gamebook

/-- What is wrong with a datum. -/
inductive Complaint where
  | notDocument (document : String)
  | missing
  | notText
  | notDictionary
  | notList
  | notTruth
  | unreadableTruth
  | notInteger
  | unreadableInteger
  | oversizedInteger
  | fractional
  | notFinite
  | notNumber
  | unreadableNumber
  deriving DecidableEq, Repr

/-- The wording of a complaint. -/
def Complaint.message : Complaint → String
  | .notDocument document => s!"Input should be a valid dictionary or instance of {document}"
  | .missing => "Field required"
  | .notText => "Input should be a valid string"
  | .notDictionary => "Input should be a valid dictionary"
  | .notList => "Input should be a valid list"
  | .notTruth => "Input should be a valid boolean"
  | .unreadableTruth => "Input should be a valid boolean, unable to interpret input"
  | .notInteger => "Input should be a valid integer"
  | .unreadableInteger =>
    "Input should be a valid integer, unable to parse string as an integer"
  | .oversizedInteger => "Unable to parse input string as an integer, exceeded maximum size"
  | .fractional => "Input should be a valid integer, got a number with a fractional part"
  | .notFinite => "Input should be a finite number"
  | .notNumber => "Input should be a valid number"
  | .unreadableNumber => "Input should be a valid number, unable to parse string as a number"

/-- A checked value, or the faults that were found. -/
abbrev Checked (α : Type) := Except (List Fault) α

namespace Checked

variable {α β γ : Type}

/-- Refuses a datum. -/
def refuse (complaint : Complaint) : Checked α :=
  .error [⟨[], complaint.message⟩]

/-- Combines two checks; the faults of both are kept. -/
def both : Checked α → Checked β → Checked (α × β)
  | .ok a, .ok b => .ok (a, b)
  | .ok _, .error fs => .error fs
  | .error fs, .ok _ => .error fs
  | .error fs, .error gs => .error (fs ++ gs)

/-- Moves the faults of a check to a place inside. -/
def inside (segment : String) : Checked α → Checked α
  | .ok a => .ok a
  | .error fs => .error (fs.map fun f => ⟨segment :: f.place, f.complaint⟩)

/-- The first of two readings that succeeds.  If neither does, the faults of both are kept, each
inside the name of its reading. -/
def either (first : String) (a : Checked α) (second : String) (b : Checked α) : Checked α :=
  match a, b with
  | .ok v, _ => .ok v
  | .error _, .ok v => .ok v
  | a, b => (both (inside first a) (inside second b)).map Prod.fst

/-- Checks each entry, inside its own place, and keeps the faults of all. -/
def each (check : β → Checked γ) (segment : β → String) : List β → Checked (List γ)
  | [] => .ok []
  | b :: bs => (both (inside (segment b) (check b)) (each check segment bs)).map fun r => r.1 :: r.2

end Checked

namespace Schema

open Checked Document

/-- The members of a document. -/
abbrev Members := List (String × Datum)

/-- The first of several names that has a value, and the value. -/
def find? (names : List String) (ms : Members) : Option (String × Datum) :=
  names.findSome? fun name => (Datum.member? name ms).map (name, ·)

/-- A field that must be there, by its name or by another one.  Faults show the name under which
it is found, or the first one if it is missing. -/
def required {α : Type} (name : String) (others : List String) (check : Datum → Checked α)
    (ms : Members) : Checked α :=
  match find? (name :: others) ms with
  | some (found, d) => inside found (check d)
  | none => inside name (refuse .missing)

/-- A field with a default, by its name or by another one.  Faults show the name under which it is
found. -/
def optional {α : Type} (name : String) (others : List String) (default : α)
    (check : Datum → Checked α) (ms : Members) : Checked α :=
  match find? (name :: others) ms with
  | some (found, d) => inside found (check d)
  | none => .ok default

/-- A check in which null stands for a value. -/
def nullAs {α : Type} (value : α) (check : Datum → Checked α) : Datum → Checked α
  | .null => .ok value
  | d => check d

/-- The members of an object that stands for a document. -/
def document {α : Type} (title : String) (check : Members → Checked α) : Datum → Checked α
  | .object ms => check ms
  | _ => refuse (.notDocument title)

/-- A text. -/
def text : Datum → Checked String
  | .text s => .ok s
  | _ => refuse .notText

/-- A list whose items all pass a check. -/
def list {α : Type} (check : Datum → Checked α) : Datum → Checked (List α)
  | .list items =>
    each (fun i => check i.1) (fun i => toString i.2) items.zipIdx
  | _ => refuse .notList

/-- An object whose values all pass a check. -/
def table {α : Type} (check : Datum → Checked α) : Datum → Checked (Table α)
  | .object ms =>
    (each (fun m => (check m.2).map (m.1, ·)) Prod.fst ms).map Table.ofEntries
  | _ => refuse .notDictionary

/-- The words for false. -/
def falseWords : List (List Char) :=
  ["0", "off", "f", "n", "no", "false"].map String.toList

/-- The words for true. -/
def trueWords : List (List Char) :=
  ["1", "on", "t", "y", "yes", "true"].map String.toList

/-- The truth value of a whole number: only zero and one have one. -/
def truthOfInt (n : Int) : Checked Bool :=
  if n = 0 then .ok false else if n = 1 then .ok true else refuse .unreadableTruth

/-- The whole number that a floating point number is, if its magnitude is below 2⁶³. -/
def smallInt? (x : Binary64) : Option Int :=
  x.toInt?.filter fun n => decide (n.natAbs < 0x8000000000000000)

/-- A truth value, or a word or a number that spells one.  Integers of more than 64 bits, floating
point numbers of their size and numbers with a fraction do not even try to. -/
def truth : Datum → Checked Bool
  | .truth b => .ok b
  | .number (.int n) =>
    if -0x8000000000000000 ≤ n ∧ n < 0x8000000000000000 then truthOfInt n
    else refuse .notTruth
  | .number (.float x) =>
    match smallInt? x with
    | some n => truthOfInt n
    | none => refuse .notTruth
  | .text s =>
    let word := Text.lowerAscii s.toList
    if falseWords.contains word then .ok false
    else if trueWords.contains word then .ok true
    else refuse .unreadableTruth
  | _ => refuse .notTruth

/-- The integer that a text spells. -/
def spelledInteger (cs : List Char) : Checked Int :=
  match Number.Spelled.int cs with
  | .int n => .ok n
  | .tooLong => refuse .oversizedInteger
  | .unreadable => refuse .unreadableInteger

/-- The floating point number that a text spells. -/
def spelledFloat (cs : List Char) : Checked Binary64 :=
  match Number.Spelled.float? cs with
  | some x => .ok x
  | none => refuse .unreadableNumber

/-- An integer, or a truth value, a whole number or a text that spells one. -/
def integer : Datum → Checked Int
  | .truth b => .ok (if b then 1 else 0)
  | .number (.int n) => .ok n
  | .number (.float x) =>
    match smallInt? x with
    | some n => .ok n
    | none =>
      refuse <|
        if !x.isFinite then .notFinite
        else if x.toInt?.isNone then .fractional
        else .oversizedInteger
  | .text s => spelledInteger s.toList
  | _ => refuse .notInteger

/-- A number of either kind, or a truth value or a text that spells one; integers go first. -/
def number : Datum → Checked Number
  | .number n => .ok n
  | .truth b => .ok (Scalar.ofTruth b)
  | .text s =>
    either "int" ((spelledInteger s.toList).map .int) "float" ((spelledFloat s.toList).map .float)
  | _ => either "int" (refuse .notInteger) "float" (refuse .notNumber)

/-- A scalar, kept as it is. -/
def scalar (d : Datum) : Checked Scalar :=
  match Scalar.ofDatum? d with
  | some s => .ok s
  | none =>
    .error [⟨["str"], Complaint.notText.message⟩, ⟨["int"], Complaint.notInteger.message⟩,
      ⟨["float"], Complaint.notNumber.message⟩, ⟨["bool"], Complaint.notTruth.message⟩]

/-- An object or a text, kept as it is. -/
def objectOrText : Datum → Checked Datum
  | .object ms => .ok (.object ms)
  | .text s => .ok (.text s)
  | _ => either "dict[str,any]" (refuse .notDictionary) "str" (refuse .notText)

/-! ## Documents -/

/-- Checks an outcome. -/
def outcome : Datum → Checked Outcome :=
  document "OutcomeDocument" fun ms =>
    (both (required "type" [] text ms)
      (optional "value" [] none (nullAs none fun d => (text d).map some) ms)).map
    fun (type, value) => ⟨type, value⟩

/-- Checks a choice. -/
def choice : Datum → Checked ChoiceForm :=
  document "ChoiceDocument" fun ms =>
    (both (required "id" [] text ms) <|
      both (optional "text" [] "" (nullAs "" text) ms) <|
      both (optional "target" [] "" (nullAs "" text) ms) <|
      both (optional "conditions" [] [] (nullAs [] (list objectOrText)) ms) <|
      both (optional "effects" [] [] (nullAs [] (list objectOrText)) ms) <|
      optional "outcome" [] none (nullAs none fun d => (outcome d).map some) ms).map
    fun (id, text, target, conditions, effects, outcome) =>
      ⟨id, text, target, conditions, effects, outcome⟩

/-- Checks a node. -/
def node : Datum → Checked NodeForm :=
  document "NodeDocument" fun ms =>
    (both (optional "id" [] none (nullAs none fun d => (text d).map some) ms) <|
      both (optional "text" [] "" (nullAs "" text) ms) <|
      optional "choices" [] [] (nullAs [] (list choice)) ms).map
    fun (id, text, choices) => ⟨id, text, choices⟩

/-- Checks a story. -/
def story : Datum → Checked StoryForm :=
  document "ModelDocument" fun ms =>
    (both (optional "modelType" ["model_type"] "" text ms) <|
      both (required "startNode" ["start_node"] text ms) <|
      both (optional "flags" [] ∅ (nullAs ∅ (table truth)) ms) <|
      both (optional "resources" [] ∅ (nullAs ∅ (table number)) ms) <|
      required "nodes" [] (table node) ms).map
    fun (kind, start, flags, resources, nodes) => ⟨kind, start, flags, resources, nodes⟩

/-- Checks a saved session. -/
def session : Datum → Checked SessionForm :=
  document "SessionDocument" fun ms =>
    (both (required "nodeId" ["node_id"] text ms) <|
      both (optional "flags" [] ∅ (table truth) ms) <|
      both (optional "resources" [] ∅ (table number) ms) <|
      both (optional "variables" [] ∅ (table scalar) ms) <|
      optional "time" [] 0 integer ms).map
    fun (node, flags, resources, vars, time) => ⟨node, flags, resources, vars, time⟩

/-- The checker that goes by these schemas. -/
def checker : Checker where
  story d := (story d).mapError .faults
  session d := (session d).mapError .faults

end Schema

end Gamebook
