import Gamebook.Scalar

/-!
# Quantities

A state that is handed over from outside may count by truth values: true is one and false is
zero.  Such a value is kept as it is until a calculation replaces it.
-/

namespace Gamebook

/-- What a state counts with. -/
inductive Quantity where
  | number (value : Number)
  | truth (value : Bool)
  deriving DecidableEq, Inhabited

namespace Quantity

instance (n : Nat) : OfNat Quantity n := ⟨.number (.int n)⟩

/-- The number that a quantity counts for. -/
def amount : Quantity → Number
  | .number n => n
  | .truth b => Scalar.ofTruth b

/-- The datum of a quantity. -/
def toDatum : Quantity → Datum
  | .number n => .number n
  | .truth b => .truth b

/-- The quantity of a datum, if it is one. -/
def ofDatum? : Datum → Option Quantity
  | .number n => some (.number n)
  | .truth b => some (.truth b)
  | _ => none

end Quantity

end Gamebook
