import Gamebook.Number.Parts
import Gamebook.Number.Shortest

/-!
# Numbers of a story

Resources and bounds are integers of any size or floating point numbers, and the two kinds stay
apart: `10` and `10.0` are different values with different texts.  Comparison is by numeric
value and exact, also between the kinds.  Arithmetic between the kinds converts the integer
first, which fails for an integer that is out of range.
-/

namespace Gamebook

/-- An integer or a floating point number. -/
inductive Number where
  | int (value : Int)
  | float (value : Binary64)
  deriving DecidableEq, Inhabited

namespace Number

instance (n : Nat) : OfNat Number n := ⟨.int n⟩

/-- Where a number lies: out of range below, at a number of grains, or out of range above. -/
inductive Place where
  | below
  | at (grains : Int)
  | above
  deriving DecidableEq, Repr

/-- The place of a number; an undefined one has none. -/
def place? : Number → Option Place
  | .int n => some (.at (n * Binary64.one))
  | .float (.finite s g _) => some (.at (Binary64.signedGrains s g))
  | .float (.infinite true) => some .below
  | .float (.infinite false) => some .above
  | .float (.undefined _) => none

/-- Places in order. -/
def Place.le : Place → Place → Bool
  | .below, _ => true
  | .at _, .below => false
  | .at a, .at b => decide (a ≤ b)
  | .at _, .above => true
  | .above, .above => true
  | .above, _ => false

/-- At most, by value; false when either number is undefined. -/
def le (a b : Number) : Bool :=
  match a.place?, b.place? with
  | some p, some q => p.le q
  | _, _ => false

/-- Less, by value; false when either number is undefined. -/
def lt (a b : Number) : Bool :=
  match a.place?, b.place? with
  | some p, some q => !q.le p
  | _, _ => false

/-- Equal, by value; false when either number is undefined. -/
def eq (a b : Number) : Bool :=
  match a.place?, b.place? with
  | some p, some q => p == q
  | _, _ => false

/-- The same number for all purposes: equal by value, or the undefined number that documents
write. -/
def agrees : Number → Number → Bool
  | .float (.undefined .written), .float (.undefined .written) => true
  | a, b => a.eq b

/-- The number as a floating point number. -/
def toBinary64 : Number → Except RangeError Binary64
  | .int n => (Binary64.ofInt? n).elim (.error .tooLarge) .ok
  | .float x => .ok x

/-- Applies an operation: exactly on two integers, in floating point otherwise. -/
def combine (onInt : Int → Int → Int) (onFloat : Binary64 → Binary64 → Binary64) :
    Number → Number → Except RangeError Number
  | .int a, .int b => .ok (.int (onInt a b))
  | a, b => do
    let x ← a.toBinary64
    let y ← b.toBinary64
    return .float (onFloat x y)

/-- The sum. -/
def add : Number → Number → Except RangeError Number :=
  combine (· + ·) Binary64.add

/-- The number that is one more, which every number has. -/
def next : Number → Number
  | .int n => .int (n + 1)
  | .float x => .float (x.add (.ofGrains false Binary64.one))

/-- The product. -/
def mul : Number → Number → Except RangeError Number :=
  combine (· * ·) Binary64.mul

/-- Whether a number is finite; the question makes sense only for numbers in range. -/
def isFinite (n : Number) : Except RangeError Bool := do
  let x ← n.toBinary64
  return x.isFinite

/-- Whether a number is zero. -/
def isZero (n : Number) : Bool :=
  n.eq 0

/-- The text of a number, which tells the kinds apart. -/
def text : Number → List Char
  | .int n => Numeral.ofInt n
  | .float x => x.text

/-- Whether a number has more digits than are written. -/
def isTooLong : Number → Bool
  | .int n => decide (Numeral.maxDigits < (Numeral.digits n.natAbs).length)
  | .float _ => false

/-- The text of a number where only its value matters: integers have one form in both kinds. -/
def plainText : Number → List Char
  | .int n => Numeral.ofInt n
  | .float x =>
    match x.toInt? with
    | some n => Numeral.ofInt n
    | none => x.text

/-- The number that parts in decimal notation denote. -/
def Parts.toNumber (p : Parts) : Except RangeError Number :=
  if p.isInt then p.toInt.map .int else .ok (.float p.toBinary64)

end Number

end Gamebook
