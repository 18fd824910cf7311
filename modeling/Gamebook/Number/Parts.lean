import Gamebook.Number.Binary64
import Gamebook.Number.RangeError

/-!
# Reading decimal notation

The parts of a number's notation: an optional sign, digits, a fraction behind a point and an
exponent behind `e` or `E`.  Each part is cut off the front of a text.  Documents, play states
and shorthand texts allow different parts, and read the ones that they allow from here.
-/

namespace Gamebook.Number

/-- The parts of a number in decimal notation. -/
structure Parts where
  negative : Bool
  whole : List Char
  fraction : Option (List Char) := none
  exponent : Option Int := none
  deriving Repr

/-- A natural number with a sign. -/
def signed (negative : Bool) (n : Nat) : Int :=
  if negative then -(n : Int) else n

namespace Parts

/-- Whether the parts denote an integer: neither a fraction nor an exponent is written. -/
def isInt (n : Parts) : Bool :=
  n.fraction.isNone && n.exponent.isNone

/-- The floating point number nearest to what the parts denote. -/
def toBinary64 (n : Parts) : Binary64 :=
  let fraction := n.fraction.getD []
  Binary64.ofDecimal n.negative (Numeral.value (n.whole ++ fraction))
    (n.exponent.getD 0 - fraction.length)

/-- The integer that the whole part denotes.  Leading zeros count as digits. -/
def toInt (n : Parts) : Except RangeError Int :=
  if Numeral.maxDigits < n.whole.length then .error (.tooManyDigits n.whole.length)
  else .ok (signed n.negative (Numeral.value n.whole))

end Parts

/-- Cuts a leading minus sign off. -/
def cutMinus : List Char → Bool × List Char
  | '-' :: cs => (true, cs)
  | cs => (false, cs)

/-- Cuts a leading sign off. -/
def cutSign : List Char → Bool × List Char
  | '-' :: cs => (true, cs)
  | '+' :: cs => (false, cs)
  | cs => (false, cs)

/-- Cuts a point and the digits behind it off, of which there must be one at least. -/
def cutFraction : List Char → Option (List Char × List Char)
  | '.' :: cs =>
    match Numeral.spanDigits cs with
    | ([], _) => none
    | (ds, rest) => some (ds, rest)
  | _ => none

/-- Cuts an exponent off: `e` or `E`, an optional sign and at least one digit. -/
def cutExponent : List Char → Option (Int × List Char)
  | c :: cs =>
    if c = 'e' ∨ c = 'E' then
      let (negative, ds) := cutSign cs
      match Numeral.spanDigits ds with
      | ([], _) => none
      | (ds, rest) =>
        some (signed negative (Numeral.value ds), rest)
    else none
  | [] => none

namespace Parts

/-- Reads digits with an optional fraction, and nothing else, with the given sign. -/
def ofDigits? (negative : Bool) (cs : List Char) : Option Parts :=
  match Numeral.spanDigits cs with
  | ([], _) => none
  | (whole, []) => some { negative, whole }
  | (whole, rest) =>
    match cutFraction rest with
    | some (fraction, []) => some { negative, whole, fraction }
    | _ => none

/-- Reads an optional minus sign and digits with an optional fraction, and nothing else. -/
def ofPlain? (cs : List Char) : Option Parts :=
  let (negative, rest) := cutMinus cs
  ofDigits? negative rest

end Parts

end Gamebook.Number
