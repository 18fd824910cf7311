/-!
# Binary floating point numbers of 64 bits

A finite number is a sign and a whole number of *grains*, where a grain is 2⁻¹⁰⁷⁴, the smallest
positive number of the format.  Every finite number of the format is a whole number of grains,
so comparing, adding and testing for integers are exact arithmetic on naturals.

`roundHalfEven` rounds a quotient to the nearest integer and `nearest` rounds a quotient of
grains to the nearest number with at most 53 significant bits, ties to even.  A result that
reaches 2¹⁰²⁴ becomes an infinity.
-/

namespace Gamebook

/-- Where an undefined result comes from.  The one that the word `NaN` in a document denotes is
a single value; any other arises from a calculation or is handed over from outside, and agrees
with nothing, itself included. -/
inductive Undefined where
  | written
  | arisen
  deriving DecidableEq, Repr, Inhabited

namespace Binary64

/-- A grain is `2 ^ (-grainBits)`. -/
def grainBits : Nat := 1074

/-- The number of grains in one. -/
def one : Nat := Nat.pow 2 grainBits

/-- The number of grains in 2¹⁰²⁴, the first magnitude that is out of range. -/
def limit : Nat := Nat.pow 2 (1024 + grainBits)

/-- The exponent of the spacing between neighbouring magnitudes around `n` grains: the last of
53 significant bits, or the grain itself. -/
def spacing (n : Nat) : Nat :=
  n.log2 - 52

/-- A magnitude of the format: below the limit, with at most 53 significant bits. -/
def Representable (n : Nat) : Prop :=
  n % Nat.pow 2 (spacing n) = 0 ∧ n < limit

instance (n : Nat) : Decidable (Representable n) :=
  inferInstanceAs (Decidable (_ ∧ _))

/-- The integer nearest to `num / den`, the even one of two. -/
def roundHalfEven (num den : Nat) : Nat :=
  let q := num / den
  let r := num % den
  if 2 * r < den then q
  else if den < 2 * r then q + 1
  else if q % 2 = 0 then q else q + 1

/-- The magnitude nearest to `num / den` grains, the even one of two, whatever its size. -/
def nearest (num den : Nat) : Nat :=
  let unit := Nat.pow 2 (spacing (num / den))
  roundHalfEven num (den * unit) * unit

theorem representable_zero : Representable 0 := by
  refine ⟨Nat.zero_mod _, ?_⟩
  unfold limit
  generalize 1024 + grainBits = n
  exact Nat.pow_pos (by decide)

end Binary64

/-- A number of the format: finite, infinite or undefined. -/
inductive Binary64 where
  | finite (negative : Bool) (grains : Nat) (representable : Binary64.Representable grains)
  | infinite (negative : Bool)
  | undefined (origin : Undefined)
  deriving DecidableEq

namespace Binary64

/-- Zero with a sign. -/
def zero (negative : Bool) : Binary64 :=
  .finite negative 0 representable_zero

instance : Inhabited Binary64 := ⟨zero false⟩

/-- The number with a sign and a magnitude in grains, which is infinite past the limit. -/
def ofGrains (negative : Bool) (grains : Nat) : Binary64 :=
  if h : Representable grains then .finite negative grains h else .infinite negative

/-- Rounds `num / den` grains to the format. -/
def ofQuotient (negative : Bool) (num den : Nat) : Binary64 :=
  ofGrains negative (nearest num den)

/-- Rounds the decimal `coefficient * 10 ^ exponent`.  Magnitudes that are far out of range are
not calculated. -/
def ofDecimal (negative : Bool) (coefficient : Nat) (exponent : Int) : Binary64 :=
  if coefficient = 0 then zero negative
  else if 400 < exponent then .infinite negative
  else if exponent + coefficient.log2 < -1100 then zero negative
  else if 0 ≤ exponent then ofQuotient negative (coefficient * Nat.pow 10 exponent.toNat * one) 1
  else ofQuotient negative (coefficient * one) (Nat.pow 10 (-exponent).toNat)

/-- The number itself if it is finite. -/
def finite? : Binary64 → Option Binary64
  | .finite s g h => some (.finite s g h)
  | _ => none

/-- The number nearest to an integer; `none` if it would be infinite. -/
def ofInt? (n : Int) : Option Binary64 :=
  (ofQuotient (decide (n < 0)) (n.natAbs * one) 1).finite?

/-- A finite number in grains, with its sign. -/
def signedGrains (negative : Bool) (grains : Nat) : Int :=
  if negative then -(grains : Int) else grains

def isFinite : Binary64 → Bool
  | .finite .. => true
  | _ => false

/-- The integer that a number is, if it is one. -/
def toInt? : Binary64 → Option Int
  | .finite s g _ => if g % one = 0 then some (signedGrains s (g / one)) else none
  | _ => none

/-- The sum, rounded.  A sum of zero is positive unless both operands are negative. -/
def add : Binary64 → Binary64 → Binary64
  | .finite s g _, .finite t h _ =>
    let sum := signedGrains s g + signedGrains t h
    ofQuotient (if sum = 0 then s && t else decide (sum < 0)) sum.natAbs 1
  | .undefined _, _ => .undefined .arisen
  | _, .undefined _ => .undefined .arisen
  | .infinite s, .infinite t => if s = t then .infinite s else .undefined .arisen
  | .infinite s, .finite .. => .infinite s
  | .finite .., .infinite t => .infinite t

/-- The product, rounded. -/
def mul : Binary64 → Binary64 → Binary64
  | .finite s g _, .finite t h _ => ofQuotient (s != t) (g * h) one
  | .undefined _, _ => .undefined .arisen
  | _, .undefined _ => .undefined .arisen
  | .infinite s, .infinite t => .infinite (s != t)
  | .infinite s, .finite t h _ => if h = 0 then .undefined .arisen else .infinite (s != t)
  | .finite s g _, .infinite t => if g = 0 then .undefined .arisen else .infinite (s != t)

end Binary64

end Gamebook
