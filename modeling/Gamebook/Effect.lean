import Gamebook.Condition

/-!
# Effects

An effect changes the state when a choice is taken.  Effects nest: one of several may be picked,
and one may depend on a condition.  Text that is not understood is kept verbatim and does
nothing.
-/

namespace Gamebook

/-- A change that a choice makes. -/
inductive Effect where
  /-- Gives a flag a value. -/
  | setFlag (key : String) (value : Bool)
  /-- Adds to a resource. -/
  | addResource (key : String) (delta : Number)
  /-- Multiplies a resource. -/
  | multiplyResource (key : String) (factor : Number)
  /-- Gives a resource an amount. -/
  | setResource (key : String) (value : Number)
  /-- Gives a variable a value. -/
  | setVariable (key : String) (value : Scalar)
  /-- Sends the reader to another node than the choice declares. -/
  | goto (target : String)
  /-- Applies one member, picked at random. -/
  | oneOf (members : List Effect)
  /-- Applies the member if the condition holds in the state so far. -/
  | provided (condition : Condition) (member : Effect)
  /-- Text that was not understood. -/
  | verbatim (text : String)
  deriving Inhabited

namespace Effect

mutual

/-- The same effect for all purposes: alike but for the kinds of their numbers. -/
def agrees : Effect → Effect → Bool
  | .setFlag k a, .setFlag l b => k == l && a == b
  | .addResource k m, .addResource l n => k == l && m.agrees n
  | .multiplyResource k m, .multiplyResource l n => k == l && m.agrees n
  | .setResource k m, .setResource l n => k == l && m.agrees n
  | .setVariable k a, .setVariable l b => k == l && a.agrees b
  | .goto s, .goto t => s == t
  | .oneOf es, .oneOf fs => agreesEach es fs
  | .provided c e, .provided d f => c.agrees d && agrees e f
  | .verbatim s, .verbatim t => s == t
  | _, _ => false

/-- Member by member the same effects. -/
def agreesEach : List Effect → List Effect → Bool
  | [], [] => true
  | e :: es, f :: fs => agrees e f && agreesEach es fs
  | _, _ => false

end

mutual

/-- The targets of the gotos in an effect, at any depth, in order. -/
def gotos : Effect → List String
  | .goto target => [target]
  | .oneOf members => gotosOfAll members
  | .provided _ member => gotos member
  | _ => []

/-- The targets of the gotos in several effects. -/
def gotosOfAll : List Effect → List String
  | [] => []
  | e :: es => gotos e ++ gotosOfAll es

end

theorem mem_gotosOfAll_iff {es : List Effect} {target : String} :
    target ∈ gotosOfAll es ↔ ∃ e ∈ es, target ∈ gotos e := by
  induction es with
  | nil => simp [gotosOfAll]
  | cons e es ih => simp [gotosOfAll, ih]

/-- The target of a goto that is not inside another effect. -/
def target? : Effect → Option String
  | .goto target => some target
  | _ => none

end Effect

end Gamebook
