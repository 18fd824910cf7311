import Gamebook.Effect
import Gamebook.Condition.Tagged

/-!
# Effects in documents

`toDatum` writes an effect as a tagged object, and verbatim text as a text.  `ofDatum` reads
them, together with an older spelling: `addResource` may carry its amount as `value` where it
has no `delta`.
-/

namespace Gamebook.Effect

/-- The field with the amount of an `addResource` object. -/
def deltaField (ms : Tagged.Members) : String :=
  match Datum.memberOrNull "delta" ms with
  | .null => "value"
  | _ => "delta"

/-- The `target` field of a `goto` object, a text. -/
def targetOf (ms : Tagged.Members) : Except DecodeError String := do
  match ← Tagged.require "goto" "target" ms with
  | .text s => return s
  | _ => throw (.tagged (.notText "goto" "target"))

mutual

/-- Reads an effect. -/
def ofDatum : Datum → Except DecodeError Effect
  | .text s => .ok (.verbatim s)
  | .object ms =>
    match Datum.memberOrNull "type" ms with
    | .text "setFlag" => do
      return .setFlag (← Tagged.key "setFlag" ms) (← Tagged.truth "setFlag" "value" ms)
    | .text "addResource" => do
      return .addResource (← Tagged.key "addResource" ms)
        (← Tagged.number "addResource" (deltaField ms) ms)
    | .text "multiplyResource" => do
      return .multiplyResource (← Tagged.key "multiplyResource" ms)
        (← Tagged.number "multiplyResource" "factor" ms)
    | .text "setResource" => do
      return .setResource (← Tagged.key "setResource" ms)
        (← Tagged.number "setResource" "value" ms)
    | .text "setVariable" => do
      return .setVariable (← Tagged.key "setVariable" ms)
        (← Tagged.scalar "setVariable" "value" ms)
    | .text "goto" => do return .goto (← targetOf ms)
    | .text "randomEffect" => do return .oneOf (← membersOf ms)
    | .text "conditionalEffect" => do
      let condition ← Condition.memberOf "conditionalEffect" ms
      return .provided condition (← memberOf ms)
    | tag => .error (.tagged (.unknownTag .effect tag))
  | d => .error (.tagged (.notObject .effect d))

/-- Reads each item of a list. -/
def ofItems : List Datum → Except DecodeError (List Effect)
  | [] => .ok []
  | d :: ds => do return (← ofDatum d) :: (← ofItems ds)

/-- Reads the `effects` field, a list; a missing or empty field has no members. -/
def membersOf : List (String × Datum) → Except DecodeError (List Effect)
  | [] => .ok []
  | (k, d) :: ms =>
    if k = "effects" then
      match d with
      | .list items => ofItems items
      | d => if d.isEmpty then .ok [] else .error (.tagged (.notList "randomEffect" "effects"))
    else membersOf ms

/-- Reads the `effect` field, which must be there. -/
def memberOf : List (String × Datum) → Except DecodeError Effect
  | [] => .error (.tagged (.missing "conditionalEffect" "effect"))
  | (k, d) :: ms =>
    if k = "effect" then
      match d with
      | .null => .error (.tagged (.missing "conditionalEffect" "effect"))
      | d => ofDatum d
    else memberOf ms

end

mutual

/-- Writes an effect. -/
def toDatum : Effect → Datum
  | .setFlag key value =>
    .object [("type", .text "setFlag"), ("key", .text key), ("value", .truth value)]
  | .addResource key delta =>
    .object [("type", .text "addResource"), ("key", .text key), ("delta", .number delta)]
  | .multiplyResource key factor =>
    .object [("type", .text "multiplyResource"), ("key", .text key), ("factor", .number factor)]
  | .setResource key value =>
    .object [("type", .text "setResource"), ("key", .text key), ("value", .number value)]
  | .setVariable key value =>
    .object [("type", .text "setVariable"), ("key", .text key), ("value", value.toDatum)]
  | .goto target => .object [("type", .text "goto"), ("target", .text target)]
  | .oneOf members =>
    .object [("type", .text "randomEffect"), ("effects", .list (toData members))]
  | .provided condition member =>
    .object [("type", .text "conditionalEffect"), ("condition", condition.toDatum),
      ("effect", toDatum member)]
  | .verbatim text => .text text

/-- Writes each effect of a list. -/
def toData : List Effect → List Datum
  | [] => []
  | e :: es => toDatum e :: toData es

end

end Gamebook.Effect
