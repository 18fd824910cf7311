import Gamebook.Datum

/-!
# Scalars

Documents give variables texts, numbers and truth values.
-/

namespace Gamebook

/-- The value of a variable. -/
inductive Scalar where
  | text (value : String)
  | number (value : Number)
  | truth (value : Bool)
  deriving DecidableEq, Inhabited

namespace Scalar

/-- The datum of a scalar. -/
def toDatum : Scalar → Datum
  | .text s => .text s
  | .number n => .number n
  | .truth b => .truth b

/-- The scalar of a datum, if it is one. -/
def ofDatum? : Datum → Option Scalar
  | .text s => some (.text s)
  | .number n => some (.number n)
  | .truth b => some (.truth b)
  | _ => none

/-- The number of a truth value. -/
def ofTruth (b : Bool) : Number :=
  if b then 1 else 0

/-- The same scalar for all purposes: numbers agree by value, and a truth value agrees with the
number zero or one. -/
def agrees : Scalar → Scalar → Bool
  | .text s, .text t => s == t
  | .number m, .number n => m.agrees n
  | .number m, .truth b => m.agrees (ofTruth b)
  | .truth a, .number n => (ofTruth a).agrees n
  | .truth a, .truth b => a == b
  | _, _ => false

end Scalar

end Gamebook
