/-!
# Ranges of code points

Tables of character classes list inclusive ranges of code points in increasing order.
-/

namespace Gamebook.Text

/-- An inclusive range of code points. -/
abbrev CodeRange := Nat × Nat

/-- Whether one of the ranges holds a code point. -/
def covers (ranges : List CodeRange) (code : Nat) : Bool :=
  ranges.any fun r => r.1 ≤ code && code ≤ r.2

end Gamebook.Text
