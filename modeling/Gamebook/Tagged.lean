import Gamebook.Datum.Shown
import Gamebook.Scalar
import Gamebook.Text.Uppercase
import Gamebook.Text.Blank

/-!
# Fields of tagged objects

In a document a condition or an effect is an object with a `type`, its tag, and further fields.
Here is how each kind of field is read: what a missing field stands for, which data it admits,
and the error that refuses any other.
-/

namespace Gamebook

/-- What a tagged object describes. -/
inductive TaggedKind where
  | condition
  | effect
  deriving DecidableEq, Repr

namespace TaggedKind

/-- The name of the kind inside a sentence. -/
def name : TaggedKind → String
  | .condition => "condition"
  | .effect => "effect"

/-- The name of the kind at the start of a sentence. -/
def title : TaggedKind → String
  | .condition => "Condition"
  | .effect => "Effect"

end TaggedKind

/-- Why a datum is no tagged object of the kind that it should be. -/
inductive TaggedError where
  | notObject (kind : TaggedKind) (found : Datum)
  | unknownTag (kind : TaggedKind) (tag : Datum)
  | unknownRelation (sign : Datum)
  | unknownLikeness (sign : Datum)
  | missing (tag field : String)
  | noKey (tag : String)
  | notNumber (tag field : String) (found : Datum)
  | notFinite (tag field : String)
  | notTruth (tag field : String)
  | notScalar (tag field : String)
  | notList (tag field : String)
  | notText (tag field : String)

/-- The wording of the error. -/
def TaggedError.message : TaggedError → String
  | .notObject kind d => s!"{kind.title} must be an object, got {d.kindName}"
  | .unknownTag kind d => s!"Unknown {kind.name} type {String.ofList d.shown}"
  | .unknownRelation d => s!"Unknown resource operator {String.ofList d.shown}"
  | .unknownLikeness d => s!"Unknown variable operator {String.ofList d.shown}"
  | .missing tag field => s!"'{tag}' is missing '{field}'"
  | .noKey tag => s!"'{tag}' needs a non-empty string 'key'"
  | .notNumber tag field d =>
    s!"'{tag}' field '{field}' must be a number, got {String.ofList d.shown}"
  | .notFinite tag field => s!"'{tag}' field '{field}' must be finite"
  | .notTruth tag field => s!"'{tag}' field '{field}' must be a boolean"
  | .notScalar tag field => s!"'{tag}' field '{field}' must be a scalar"
  | .notList tag field => s!"'{tag}' field '{field}' must be a list"
  | .notText tag field => s!"'{tag}' field '{field}' must be a string"

/-- Why reading a tagged object failed: the object is wrong, or one of its integers is so large
that the question whether it is finite has no answer. -/
inductive DecodeError where
  | tagged (error : TaggedError)
  | range (error : RangeError)

namespace Tagged

/-- The members of an object. -/
abbrev Members := List (String × Datum)

/-- A field that must be there and not null. -/
def require (tag field : String) (ms : Members) : Except DecodeError Datum :=
  match Datum.member? field ms with
  | none => .error (.tagged (.missing tag field))
  | some .null => .error (.tagged (.missing tag field))
  | some d => .ok d

/-- The `key` field: a text that is not empty. -/
def key (tag : String) (ms : Members) : Except DecodeError String := do
  match ← require tag "key" ms with
  | .text s => if s = "" then throw (.tagged (.noKey tag)) else return s
  | _ => throw (.tagged (.noKey tag))

/-- A field with a finite number. -/
def number (tag field : String) (ms : Members) : Except DecodeError Number := do
  match ← require tag field ms with
  | .number n =>
    match n.isFinite with
    | .error e => throw (.range e)
    | .ok false => throw (.tagged (.notFinite tag field))
    | .ok true => return n
  | d => throw (.tagged (.notNumber tag field d))

/-- The truth value that a text spells: only `true` and `1` are true, in any case and with
blanks around them. -/
def truthOfText (cs : List Char) : Bool :=
  let word := Text.lowerAscii (Text.strip cs)
  word = "true".toList || word = "1".toList

/-- A field with a truth value, a text that spells one or a number, of which only one is true.
A missing field is true. -/
def truth (tag field : String) (ms : Members) : Except DecodeError Bool :=
  match Datum.member? field ms with
  | none => .ok true
  | some (.truth b) => .ok b
  | some (.text s) => .ok (truthOfText s.toList)
  | some (.number n) => .ok (n.eq 1)
  | some _ => .error (.tagged (.notTruth tag field))

/-- The `value` field with a scalar; a missing or null field is the empty text. -/
def scalar (tag field : String) (ms : Members) : Except DecodeError Scalar :=
  match Datum.member? field ms with
  | none => .ok (.text "")
  | some .null => .ok (.text "")
  | some d =>
    match Scalar.ofDatum? d with
    | some s => .ok s
    | none => .error (.tagged (.notScalar tag field))

end Tagged

end Gamebook
