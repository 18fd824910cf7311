import Gamebook.Effect.Shorthand

/-!
# Editor fields

Editors build conditions and effects from separate fields: a type, a key, an operator and a
value.  Fields are data; where a text is needed, a datum stands for its running text.  Fields
from which nothing can be built give nothing, and types that have no fields of their own give
verbatim text.  A number with too many digits makes building fail.

A key that is no text is kept in the object that is built, which no reader accepts.
-/

namespace Gamebook

/-- What is built from editor fields. -/
inductive Edited (α : Type) where
  /-- A condition or an effect. -/
  | built (value : α)
  /-- A tagged object whose key is no text. -/
  | keyed (form : Datum)

namespace Edited

/-- Builds with a key: `make` is given the text of the key, and `form` the object that stands for
the result. -/
def withKey {α : Type} (key : Datum) (make : String → α) (form : α → Datum) : Edited α :=
  match key with
  | .text s => .built (make s)
  | d =>
    match form (make "") with
    | .object ms => .keyed (.object (putEntry "key" d ms))
    | f => .keyed f

/-- The truth value that a datum spells. -/
def truthOf : Datum → Bool
  | .truth b => b
  | .null => false
  | d => Tagged.truthOfText d.plain

/-- The number that a datum spells. -/
def numberOf? (d : Datum) : Except RangeError (Option Number) :=
  match Number.Parts.ofPlain? (Text.strip d.plain) with
  | some parts => parts.toNumber.map some
  | none => .ok none

/-- The text that a datum spells; null spells the empty text. -/
def textOf : Datum → String
  | .null => ""
  | d => String.ofList d.plain

/-- The operator that a datum spells, where a missing one is `=`. -/
def operatorOf? {α : Type} (ofSign? : String → Option α) : Datum → Option α
  | .null => ofSign? "="
  | .text "" => ofSign? "="
  | .text s => ofSign? s
  | _ => none

/-- Verbatim text made of parts. -/
def verbatimText (parts : List (List Char)) : String :=
  String.ofList parts.flatten

end Edited

open Edited in
/-- Builds a condition from editor fields. -/
def Condition.ofFields (type key operator value : Datum) :
    Except RangeError (Option (Edited Condition)) :=
  if type.isEmpty || key.isEmpty then .ok none
  else
    let other : Condition :=
      .verbatim (verbatimText [type.plain, [':'], key.plain,
        if operator.isEmpty then [] else operator.plain, value.plain])
    match type with
    | .text "timeWindow" => do
      match ← numberOf? key, ← numberOf? value with
      | some a, some b => return some (.built (.during a b))
      | _, _ =>
        return some
          (.built (.verbatim (verbatimText ["time:".toList, key.plain, ['-'], value.plain])))
    | .text "flag" => .ok (some (withKey key (.flagIs · (truthOf value)) Condition.toDatum))
    | .text "resource" => do
      match ← numberOf? value, operatorOf? Relation.ofSign? operator with
      | some number, some relation =>
        return some (withKey key (.resourceIs · relation number) Condition.toDatum)
      | _, _ => return none
    | .text "variable" =>
      .ok <| (operatorOf? Likeness.ofSign? operator).map fun likeness =>
        withKey key (.variableIs · likeness (.text (textOf value))) Condition.toDatum
    | .text "visited" =>
      .ok (some (.built (.verbatim (verbatimText ["visited:".toList, key.plain]))))
    | .text "notVisited" =>
      .ok (some (.built (.verbatim (verbatimText ["notVisited:".toList, key.plain]))))
    | _ => .ok (some (.built other))

open Edited in
/-- Builds an effect from editor fields; the key of a goto is its target. -/
def Effect.ofFields (type key value : Datum) : Except RangeError (Option (Edited Effect)) :=
  if type.isEmpty || key.isEmpty then .ok none
  else
    match type with
    | .text "setFlag" => .ok (some (withKey key (.setFlag · (truthOf value)) Effect.toDatum))
    | .text "addResource" => do
      match ← numberOf? value with
      | some number => return some (withKey key (.addResource · number) Effect.toDatum)
      | none => return none
    | .text "setVariable" =>
      .ok (some (withKey key (.setVariable · (.text (textOf value))) Effect.toDatum))
    | .text "goto" => .ok (some (.built (.goto (String.ofList key.plain))))
    | _ =>
      .ok <| some <|
        .built (.verbatim (verbatimText [type.plain, [':'], key.plain, ['='], value.plain]))

end Gamebook
