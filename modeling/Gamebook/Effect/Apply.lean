import Gamebook.Condition.Holds
import Gamebook.Dice
import Gamebook.Effect.Tagged

/-!
# Applying effects

Effects change a draft of the next state in order, so that each sees what the ones before it
did.  A calculation that fails stops the effects, and so does a number with too many digits where it
has to be written: in a condition that is evaluated, or in the note about the member that was picked.
The result then carries the error together with the draft and the dice as they were at that point.
-/

namespace Gamebook

/-- The next state in the making, and the target of the last goto. -/
structure Draft extends State where
  target : Option String := none

/-- What applying effects leads to. -/
structure Applied where
  draft : Draft
  dice : Dice
  error : Option RangeError := none

namespace Draft

/-- Changes the amount of a resource by a calculation that may fail. -/
def updateResource (d : Draft) (dice : Dice) (key : String)
    (calculate : Number → Except RangeError Number) : Applied :=
  match calculate (d.resource key).amount with
  | .ok amount => ⟨{ d with resources := d.resources.put key (.number amount) }, dice, none⟩
  | .error e => ⟨d, dice, some e⟩

end Draft

namespace Effect

mutual

/-- Applies an effect. -/
def apply : Effect → Draft → Dice → Applied
  | .setFlag key value, d, dice => ⟨{ d with flags := d.flags.put key (.truth value) }, dice, none⟩
  | .addResource key delta, d, dice => d.updateResource dice key (·.add delta)
  | .multiplyResource key factor, d, dice => d.updateResource dice key (·.mul factor)
  | .setResource key value, d, dice =>
    ⟨{ d with resources := d.resources.put key (.number value) }, dice, none⟩
  | .setVariable key value, d, dice =>
    ⟨{ d with vars := d.vars.put key value.toDatum }, dice, none⟩
  | .goto target, d, dice => ⟨{ d with target := some target }, dice, none⟩
  | .oneOf members, d, dice =>
    if members.length = 0 then ⟨d, dice, none⟩
    else
      let throw := dice.throwSides members.length
      applyNth members throw.1 d throw.2
  | .provided condition member, d, dice =>
    match condition.evaluate d.toState with
    | .ok true => apply member d dice
    | .ok false => ⟨d, dice, none⟩
    | .error e => ⟨d, dice, some e⟩
  | .verbatim _, d, dice => ⟨d, dice, none⟩

/-- Applies the effect at a position of a list, after a note of it has been written. -/
def applyNth : List Effect → Nat → Draft → Dice → Applied
  | [], _, d, dice => ⟨d, dice, none⟩
  | e :: _, 0, d, dice =>
    if e.toDatum.hasTooLong then ⟨d, dice, some .tooLong⟩ else apply e d dice
  | _ :: es, n + 1, d, dice => applyNth es n d dice

end

/-- Applies effects in order, up to the first that fails. -/
def applyAll : List Effect → Draft → Dice → Applied
  | [], d, dice => ⟨d, dice, none⟩
  | e :: es, d, dice =>
    match apply e d dice with
    | ⟨d, dice, none⟩ => applyAll es d dice
    | failed => failed

end Effect

end Gamebook
