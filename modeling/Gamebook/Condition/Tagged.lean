import Gamebook.Condition
import Gamebook.Tagged

/-!
# Conditions in documents

`toDatum` writes a condition as a tagged object, and verbatim text as a text.  `ofDatum` reads
them, together with older spellings: `=` for `==`, a missing operator, a truth value that is
given as a text or a number.  The operator is looked at first, then the key, then the value.
-/

namespace Gamebook.Condition

/-- The operator of an object: the sign of a relation, which is equality if it is missing. -/
def relationOf (ms : Tagged.Members) : Except DecodeError Relation :=
  match Datum.member? "op" ms with
  | none => .ok .equal
  | some (.text s) =>
    match Relation.ofSign? s with
    | some r => .ok r
    | none => .error (.tagged (.unknownRelation (.text s)))
  | some d => .error (.tagged (.unknownRelation d))

/-- The operator of an object: the sign of a likeness, which is equality if it is missing. -/
def likenessOf (ms : Tagged.Members) : Except DecodeError Likeness :=
  match Datum.member? "op" ms with
  | none => .ok .equal
  | some (.text s) =>
    match Likeness.ofSign? s with
    | some r => .ok r
    | none => .error (.tagged (.unknownLikeness (.text s)))
  | some d => .error (.tagged (.unknownLikeness d))

mutual

/-- Reads a condition. -/
def ofDatum : Datum → Except DecodeError Condition
  | .text s => .ok (.verbatim s)
  | .object ms =>
    match Datum.memberOrNull "type" ms with
    | .text "flag" => do
      return .flagIs (← Tagged.key "flag" ms) (← Tagged.truth "flag" "value" ms)
    | .text "resource" => do
      let relation ← relationOf ms
      return .resourceIs (← Tagged.key "resource" ms) relation
        (← Tagged.number "resource" "value" ms)
    | .text "variable" => do
      let likeness ← likenessOf ms
      return .variableIs (← Tagged.key "variable" ms) likeness
        (← Tagged.scalar "variable" "value" ms)
    | .text "timeWindow" => do
      return .during (← Tagged.number "timeWindow" "start" ms)
        (← Tagged.number "timeWindow" "end" ms)
    | .text "and" => do return .allOf (← membersOf "and" ms)
    | .text "or" => do return .anyOf (← membersOf "or" ms)
    | .text "not" => do return .negation (← memberOf "not" ms)
    | tag => .error (.tagged (.unknownTag .condition tag))
  | d => .error (.tagged (.notObject .condition d))

/-- Reads each item of a list. -/
def ofItems : List Datum → Except DecodeError (List Condition)
  | [] => .ok []
  | d :: ds => do return (← ofDatum d) :: (← ofItems ds)

/-- Reads the `conditions` field, a list; a missing or empty field has no members. -/
def membersOf (tag : String) : List (String × Datum) → Except DecodeError (List Condition)
  | [] => .ok []
  | (k, d) :: ms =>
    if k = "conditions" then
      match d with
      | .list items => ofItems items
      | d => if d.isEmpty then .ok [] else .error (.tagged (.notList tag "conditions"))
    else membersOf tag ms

/-- Reads the `condition` field, which must be there. -/
def memberOf (tag : String) : List (String × Datum) → Except DecodeError Condition
  | [] => .error (.tagged (.missing tag "condition"))
  | (k, d) :: ms =>
    if k = "condition" then
      match d with
      | .null => .error (.tagged (.missing tag "condition"))
      | d => ofDatum d
    else memberOf tag ms

end

mutual

/-- Writes a condition. -/
def toDatum : Condition → Datum
  | .flagIs key value =>
    .object [("type", .text "flag"), ("key", .text key), ("value", .truth value)]
  | .resourceIs key relation value =>
    .object [("type", .text "resource"), ("key", .text key), ("op", .text relation.sign),
      ("value", .number value)]
  | .variableIs key likeness value =>
    .object [("type", .text "variable"), ("key", .text key), ("op", .text likeness.sign),
      ("value", value.toDatum)]
  | .during start stop =>
    .object [("type", .text "timeWindow"), ("start", .number start), ("end", .number stop)]
  | .allOf members => .object [("type", .text "and"), ("conditions", .list (toData members))]
  | .anyOf members => .object [("type", .text "or"), ("conditions", .list (toData members))]
  | .negation member => .object [("type", .text "not"), ("condition", toDatum member)]
  | .verbatim text => .text text

/-- Writes each condition of a list. -/
def toData : List Condition → List Datum
  | [] => []
  | c :: cs => toDatum c :: toData cs

end

end Gamebook.Condition
