import Gamebook.Scalar
import Gamebook.Text.Pieces

/-!
# Conditions

A condition gates a choice or an effect.  It tests a flag, a resource, a variable or the clock,
or combines other conditions.  Text that is not understood is kept verbatim.
-/

namespace Gamebook

/-- How a resource is compared with a number. -/
inductive Relation where
  | atLeast
  | atMost
  | more
  | less
  | equal
  deriving DecidableEq, Repr

namespace Relation

/-- The sign of a relation. -/
def sign : Relation → String
  | .atLeast => ">="
  | .atMost => "<="
  | .more => ">"
  | .less => "<"
  | .equal => "=="

/-- All relations, in the order in which their signs are tried. -/
def all : List Relation :=
  [.atLeast, .atMost, .more, .less, .equal]

/-- The relation of a sign; a single `=` is equality too. -/
def ofSign? (s : String) : Option Relation :=
  if s = "=" then some .equal else all.find? (·.sign == s)

/-- Whether two numbers stand in the relation. -/
def holds : Relation → Number → Number → Bool
  | .atLeast, a, b => b.le a
  | .atMost, a, b => a.le b
  | .more, a, b => b.lt a
  | .less, a, b => a.lt b
  | .equal, a, b => a.eq b

end Relation

/-- How a variable is compared with a scalar. -/
inductive Likeness where
  | equal
  | unequal
  | containing
  | lacking
  deriving DecidableEq, Repr

namespace Likeness

/-- The sign of a likeness. -/
def sign : Likeness → String
  | .equal => "=="
  | .unequal => "!="
  | .containing => "contains"
  | .lacking => "!contains"

/-- All likenesses. -/
def all : List Likeness :=
  [.equal, .unequal, .containing, .lacking]

/-- The likeness of a sign; a single `=` is equality too. -/
def ofSign? (s : String) : Option Likeness :=
  if s = "=" then some .equal else all.find? (·.sign == s)

/-- Whether the text of a variable is like an expected text. -/
def holds : Likeness → (actual expected : List Char) → Bool
  | .equal, a, e => a == e
  | .unequal, a, e => a != e
  | .containing, a, e => Text.occursIn e a
  | .lacking, a, e => !Text.occursIn e a

end Likeness

/-- A test on the state of a play-through. -/
inductive Condition where
  /-- The flag has the value; a flag that was never set is false. -/
  | flagIs (key : String) (value : Bool)
  /-- The resource stands in the relation; one that was never set is zero. -/
  | resourceIs (key : String) (relation : Relation) (value : Number)
  /-- The text of the variable is like the value's; one that was never set has the empty text. -/
  | variableIs (key : String) (likeness : Likeness) (value : Scalar)
  /-- The clock is within the bounds, both included. -/
  | during (start stop : Number)
  /-- Every member holds. -/
  | allOf (members : List Condition)
  /-- Some member holds. -/
  | anyOf (members : List Condition)
  /-- The member does not hold. -/
  | negation (member : Condition)
  /-- Text that was not understood; it gates nothing. -/
  | verbatim (text : String)
  deriving Inhabited

namespace Condition

mutual

/-- The same condition for all purposes: alike but for the kinds of their numbers. -/
def agrees : Condition → Condition → Bool
  | .flagIs k a, .flagIs l b => k == l && a == b
  | .resourceIs k r m, .resourceIs l q n => k == l && r == q && m.agrees n
  | .variableIs k r a, .variableIs l q b => k == l && r == q && a.agrees b
  | .during a b, .during c d => a.agrees c && b.agrees d
  | .allOf cs, .allOf ds => agreesEach cs ds
  | .anyOf cs, .anyOf ds => agreesEach cs ds
  | .negation c, .negation d => agrees c d
  | .verbatim s, .verbatim t => s == t
  | _, _ => false

/-- Member by member the same conditions. -/
def agreesEach : List Condition → List Condition → Bool
  | [], [] => true
  | c :: cs, d :: ds => agrees c d && agreesEach cs ds
  | _, _ => false

end

end Condition

end Gamebook
