import Gamebook.Number.Parts
import Gamebook.Text.Blank
import Gamebook.Text.Pieces
import Gamebook.Text.Uppercase

/-!
# Numbers spelled by texts

Where a document may give a number as a text, the text is read more generously than a number is:

    12   -12   0            read as they stand
    +12   007   12.000      a plus sign, leading zeros and a fraction of zeros do not count
    1_000                   nor do single underscores inside
    .5   5.   1e3   -inf    only as floating point numbers, and so are words for those

White space around a number does not count, except around a floating point number with
underscores.  Behind leading zeros an integer may still have a minus sign.
-/

namespace Gamebook.Number

/-- What a text spells when it is read as an integer. -/
inductive SpelledInt where
  | int (value : Int)
  /-- Too many digits, whatever follows them. -/
  | tooLong
  /-- No integer. -/
  | unreadable
  deriving DecidableEq, Repr

namespace Spelled

/-- Removes underscores, which must not stand at an end or beside each other. -/
def dropUnderscores? (cs : List Char) : Option (List Char) :=
  match Text.pieces '_' cs with
  | [_] => some cs
  | ps => if ps.any List.isEmpty then none else some ps.flatten

/-- Cuts zeros and underscores off.  The last of them is kept, of which `last` is the one so far,
if a point or nothing follows. -/
def cutZerosBehind? (last : Char) : List Char → Option (List Char)
  | [] => some [last]
  | c :: cs =>
    if c = '.' then some (last :: '.' :: cs)
    else if c = '0' || c = '_' then cutZerosBehind? c cs
    else if Numeral.isDigit c || c = '-' then some (c :: cs)
    else none

/-- Cuts leading zeros off a text that begins with a digit. -/
def cutZeros? : List Char → Option (List Char)
  | [] => none
  | c :: cs =>
    if c = '0' then cutZerosBehind? '0' cs
    else if Numeral.isDigit c then some (c :: cs)
    else none

/-- Cuts a point and zeros off the end; other fractions stay. -/
def cutZeroFraction (cs : List Char) : List Char :=
  match Text.cutAt? '.' cs with
  | some (whole, '0' :: zeros) => if zeros.all (· = '0') then whole else cs
  | _ => cs

/-- Reads an optional minus sign and digits without leading zeros.  The sign does not count
towards the length. -/
def strictInt (cs : List Char) : SpelledInt :=
  let (negative, body) := cutMinus cs
  match Numeral.spanDigits body with
  | ([], _) => .unreadable
  | (['0'], []) => .int 0
  | ('0' :: _, _) => .unreadable
  | (digits, rest) =>
    if Numeral.maxDigits < digits.length then .tooLong
    else if rest.isEmpty then .int (signed negative (Numeral.value digits))
    else .unreadable

/-- Leaves of the spelling of an integer what `strictInt` reads. -/
def plainInt? (cs : List Char) : Option (List Char) := do
  let (negative, body) := cutSign (Text.trim Text.isSpace cs)
  let body := cutZeroFraction (← cutZeros? body)
  let body := (dropUnderscores? body).getD body
  return if negative then '-' :: body else body

/-- The integer that a text spells. -/
def int (cs : List Char) : SpelledInt :=
  match strictInt cs with
  | .unreadable =>
    match plainInt? cs with
    | some cs => strictInt cs
    | none => .unreadable
  | read => read

/-- The digits around a point, of which one must be there. -/
def cutMantissa? (cs : List Char) : Option (List Char × List Char × List Char) :=
  let (whole, rest) := Numeral.spanDigits cs
  let (fraction, rest) :=
    match rest with
    | '.' :: rest => Numeral.spanDigits rest
    | rest => ([], rest)
  if whole.isEmpty && fraction.isEmpty then none else some (whole, fraction, rest)

/-- Reads a floating point number: an optional sign, and digits, perhaps with a point among them
and an exponent, or one of the words `inf`, `infinity` and `nan` in any case. -/
def strictFloat? (cs : List Char) : Option Binary64 :=
  let (negative, body) := cutSign cs
  let word := String.ofList (Text.lowerAscii body)
  if word = "inf" ∨ word = "infinity" then some (.infinite negative)
  else if word = "nan" then some (.undefined .arisen)
  else
    match cutMantissa? body with
    | none => none
    | some (whole, fraction, []) => some (Parts.toBinary64 { negative, whole, fraction })
    | some (whole, fraction, rest) =>
      match cutExponent rest with
      | some (exponent, []) => some (Parts.toBinary64 { negative, whole, fraction, exponent })
      | _ => none

/-- The floating point number that a text spells. -/
def float? (cs : List Char) : Option Binary64 :=
  match strictFloat? (Text.trim Text.isSpace cs) with
  | some x => some x
  | none => (dropUnderscores? cs).bind strictFloat?

end Spelled

end Gamebook.Number
