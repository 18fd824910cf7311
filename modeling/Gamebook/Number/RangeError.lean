import Gamebook.Text.Numeral

/-!
# Numbers out of range

Integers have any size, but only those within the range of floating point numbers have a
floating point number, and only those of at most `Numeral.maxDigits` digits have a notation.
-/

namespace Gamebook

/-- Why a number cannot be used as it should be. -/
inductive RangeError where
  /-- An integer was needed as a floating point number and is too large for one. -/
  | tooLarge
  /-- The notation of an integer has so many digits that it is not read. -/
  | tooManyDigits (count : Nat)
  /-- An integer has so many digits that it is not written. -/
  | tooLong
  deriving DecidableEq, Repr

/-- The beginning of the wording for a notation with too many digits. -/
def RangeError.limitText : String :=
  s!"Exceeds the limit ({Numeral.maxDigits} digits) for integer string conversion"

/-- The end of the wording for a notation with too many digits. -/
def RangeError.adviceText : String :=
  "; use sys.set_int_max_str_digits() to increase the limit"

/-- The wording of the error. -/
def RangeError.message : RangeError → String
  | .tooLarge => "int too large to convert to float"
  | .tooManyDigits count => s!"{limitText}: value has {count} digits{adviceText}"
  | .tooLong => limitText ++ adviceText

end Gamebook
