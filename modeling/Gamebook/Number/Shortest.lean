import Gamebook.Number.Binary64
import Gamebook.Text.Numeral

/-!
# Shortest decimals

The text of a floating point number is the decimal with the fewest digits that reads back as the
number, and of those the nearest to it.  `candidates` are the two neighbours of the number on
the grid of decimals with a given count of digits; the first grid with a neighbour that reads
back wins.  Were there none up to 17 digits, the exact decimal expansion, which every number of
the format has, would do.

The text is positional for decimal exponents from -4 to 15 and then always has a fractional
part; other exponents are written out, with a sign and at least two digits.
-/

namespace Gamebook.Binary64

/-- A decimal `coefficient * 10 ^ exponent`. -/
structure Decimal where
  coefficient : Nat
  exponent : Int
  deriving DecidableEq, Repr

namespace Decimal

/-- Whether a decimal reads back as a magnitude. -/
def reads (d : Decimal) (grains : Nat) : Bool :=
  match ofDecimal false d.coefficient d.exponent with
  | .finite _ g _ => g == grains
  | _ => false

/-- The decimal exponent of the leading digit of a positive magnitude. -/
def leading (grains : Nat) : Int :=
  if one ≤ grains then ((Numeral.digits (grains / one)).length : Int) - 1
  else
    let t := (Numeral.digits (one / grains)).length
    if one ≤ grains * Nat.pow 10 (t - 1) then 1 - (t : Int) else -(t : Int)

/-- The neighbours of a magnitude among the multiples of `10 ^ exponent`, the nearer one first
and of two that are equally near the even one. -/
def candidates (grains : Nat) (exponent : Int) : List Decimal :=
  let num := if 0 ≤ exponent then grains else grains * Nat.pow 10 (-exponent).toNat
  let den := if 0 ≤ exponent then one * Nat.pow 10 exponent.toNat else one
  let q := num / den
  if roundHalfEven num den = q then [⟨q, exponent⟩, ⟨q + 1, exponent⟩]
  else [⟨q + 1, exponent⟩, ⟨q, exponent⟩]

/-- The exact decimal expansion of a magnitude. -/
def exact (grains : Nat) : Decimal :=
  ⟨grains * Nat.pow 5 grainBits, -(grainBits : Int)⟩

/-- Tries grids with `count`, `count + 1`, … digits, `fuel` of them. -/
def search (grains : Nat) (lead : Int) (count : Nat) : (fuel : Nat) → Decimal
  | 0 => exact grains
  | fuel + 1 =>
    match (candidates grains (lead + 1 - count)).find? (·.reads grains) with
    | some d => d
    | none => search grains lead (count + 1) fuel

/-- Removes up to `fuel` trailing zeros from the coefficient. -/
def trimmed (d : Decimal) : (fuel : Nat) → Decimal
  | 0 => d
  | fuel + 1 =>
    if d.coefficient % 10 = 0 then trimmed ⟨d.coefficient / 10, d.exponent + 1⟩ fuel else d

/-- The shortest decimal that reads back as a positive magnitude, without trailing zeros. -/
def shortest (grains : Nat) : Decimal :=
  (search grains (leading grains) 1 17).trimmed 17

/-- An exponent with its sign and at least two digits. -/
def exponentText (e : Int) : List Char :=
  let ds := Numeral.digits e.natAbs
  (if e < 0 then '-' else '+') :: (if ds.length < 2 then '0' :: ds else ds)

/-- Writes a decimal out. -/
def layout (d : Decimal) : List Char :=
  let ds := Numeral.digits d.coefficient
  let point := d.exponent + ds.length
  if -4 < point ∧ point ≤ 16 then
    if point ≤ 0 then '0' :: '.' :: (List.replicate (-point).toNat '0' ++ ds)
    else if ds.length ≤ point.toNat then
      ds ++ List.replicate (point.toNat - ds.length) '0' ++ ['.', '0']
    else ds.take point.toNat ++ '.' :: ds.drop point.toNat
  else
    ds.take 1 ++ (if ds.length ≤ 1 then [] else '.' :: ds.drop 1) ++ 'e' :: exponentText (point - 1)

end Decimal

/-- The sign of a text: nothing for the numbers that are not negative. -/
def signText (negative : Bool) : List Char :=
  if negative then ['-'] else []

/-- The text of a finite number. -/
def finiteText (negative : Bool) (grains : Nat) : List Char :=
  signText negative ++
    (if grains = 0 then ['0', '.', '0'] else (Decimal.shortest grains).layout)

/-- The text of a number, with `inf` and `nan` for those that are not finite. -/
def text : Binary64 → List Char
  | .finite s g _ => finiteText s g
  | .infinite s => signText s ++ ['i', 'n', 'f']
  | .undefined _ => ['n', 'a', 'n']

end Gamebook.Binary64
