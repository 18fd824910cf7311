/-!
# Decimal numerals

A natural number is written in base ten, most significant digit first and without leading
zeros; zero is the single digit `0`.  `valueFrom` reads digits back, so a numeral that was
written with `digits` has the number it was written from as its value.
-/

namespace Gamebook.Numeral

/-- The ten ASCII digits; no other digit counts here. -/
def isDigit (c : Char) : Bool :=
  '0' ≤ c && c ≤ '9'

/-- The character of a number below ten. -/
def digitChar (d : Nat) : Char :=
  Char.ofNat (48 + d)

/-- The number that an ASCII digit stands for. -/
def digitValue (c : Char) : Nat :=
  c.toNat - 48

/-- Writes `n` in front of `rest`. -/
def digitsOnto (n : Nat) (rest : List Char) : List Char :=
  if n < 10 then digitChar n :: rest
  else digitsOnto (n / 10) (digitChar (n % 10) :: rest)
termination_by n

/-- The numeral of `n`. -/
def digits (n : Nat) : List Char :=
  digitsOnto n []

/-- Reads digits after `acc` has been read. -/
def valueFrom (acc : Nat) (ds : List Char) : Nat :=
  ds.foldl (fun n c => 10 * n + digitValue c) acc

/-- The number that a run of digits stands for; no digits stand for zero. -/
def value (ds : List Char) : Nat :=
  valueFrom 0 ds

/-- The numeral of an integer, with a minus sign in front of the negative ones. -/
def ofInt : Int → List Char
  | .ofNat n => digits n
  | .negSucc n => '-' :: digits (n + 1)

/-- The most digits that the notation of an integer has where it is read or written. -/
def maxDigits : Nat := 4300

/-- Splits a text into its longest run of leading digits and what follows. -/
def spanDigits (cs : List Char) : List Char × List Char :=
  (cs.takeWhile isDigit, cs.dropWhile isDigit)

/-- The number of lower and upper case hexadecimal digits, `none` for other characters. -/
def hexValue? (c : Char) : Option Nat :=
  if isDigit c then some (digitValue c)
  else if 'a' ≤ c && c ≤ 'f' then some (c.toNat - 87)
  else if 'A' ≤ c && c ≤ 'F' then some (c.toNat - 55)
  else none

/-- The lower case hexadecimal digit of a number below sixteen. -/
def hexChar (d : Nat) : Char :=
  if d < 10 then Char.ofNat (48 + d) else Char.ofNat (87 + d)

/-- The last `width` hexadecimal digits of `n`, with leading zeros. -/
def hexDigits : (width : Nat) → (n : Nat) → List Char
  | 0, _ => []
  | w + 1, n => hexDigits w (n / 16) ++ [hexChar (n % 16)]

end Gamebook.Numeral
