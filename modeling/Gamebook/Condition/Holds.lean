import Gamebook.Condition
import Gamebook.Datum.Printer
import Gamebook.State

/-!
# When conditions hold

`holds` decides a condition in a state.  Numbers are compared by value and exactly, variables by
their text; verbatim text always holds.

`evaluate` decides it by writing the texts, which fails for a number with too many digits.  It stops
at the first member of a list that settles the matter, so that later members are not written.
-/

namespace Gamebook.Condition

/-- Whether a resource stands in a relation to a number. -/
def resourceHolds (s : State) (key : String) (relation : Relation) (value : Number) : Bool :=
  relation.holds (s.resource key).amount value

/-- Whether a variable is like a datum. -/
def variableHolds (s : State) (key : String) (likeness : Likeness) (value : Datum) : Bool :=
  likeness.holds (s.variableText key) value.comparedText

/-- The test of a resource by the sign of a relation; an unknown sign never holds. -/
def resourceHoldsBySign (s : State) (key sign : String) (value : Number) : Bool :=
  match Relation.ofSign? sign with
  | some r => resourceHolds s key r value
  | none => false

mutual

/-- Whether a condition holds in a state. -/
def holds (s : State) : Condition → Bool
  | .flagIs key value => s.flag key == value
  | .resourceIs key relation value => resourceHolds s key relation value
  | .variableIs key likeness value => variableHolds s key likeness value.toDatum
  | .during start stop => start.le s.time.amount && s.time.amount.le stop
  | .allOf members => allHold s members
  | .anyOf members => anyHolds s members
  | .negation member => !holds s member
  | .verbatim _ => true

/-- Whether all conditions hold; no conditions always do. -/
def allHold (s : State) : List Condition → Bool
  | [] => true
  | c :: cs => holds s c && allHold s cs

/-- Whether some condition holds. -/
def anyHolds (s : State) : List Condition → Bool
  | [] => false
  | c :: cs => holds s c || anyHolds s cs

end

/-- The text of a variable, if all its numbers can be written. -/
def writeVariable (s : State) (key : String) : Except RangeError (List Char) :=
  match s.vars.get? key with
  | some d => d.writeCompared
  | none => .ok []

/-- Tests a variable and a datum by their texts, that of the variable being written first. -/
def testVariable (s : State) (key : String) (value : Datum) (test : List Char → List Char → Bool) :
    Except RangeError Bool := do
  let actual ← writeVariable s key
  let expected ← value.writeCompared
  return test actual expected

/-- Tests a variable by the sign of a likeness; for an unknown sign the texts are written too. -/
def testVariableBySign (s : State) (key sign : String) (value : Datum) : Except RangeError Bool :=
  testVariable s key value fun actual expected =>
    match Likeness.ofSign? sign with
    | some r => r.holds actual expected
    | none => false

mutual

/-- Evaluates a condition in a state. -/
def evaluate (s : State) : Condition → Except RangeError Bool
  | .flagIs key value => .ok (s.flag key == value)
  | .resourceIs key relation value => .ok (resourceHolds s key relation value)
  | .variableIs key likeness value => testVariable s key value.toDatum likeness.holds
  | .during start stop => .ok (start.le s.time.amount && s.time.amount.le stop)
  | .allOf members => evaluateAll s members
  | .anyOf members => evaluateAny s members
  | .negation member => (evaluate s member).map not
  | .verbatim _ => .ok true

/-- Evaluates conditions up to the first that does not hold. -/
def evaluateAll (s : State) : List Condition → Except RangeError Bool
  | [] => .ok true
  | c :: cs => do if ← evaluate s c then evaluateAll s cs else .ok false

/-- Evaluates conditions up to the first that holds. -/
def evaluateAny (s : State) : List Condition → Except RangeError Bool
  | [] => .ok false
  | c :: cs => do if ← evaluate s c then .ok true else evaluateAny s cs

end

end Gamebook.Condition
