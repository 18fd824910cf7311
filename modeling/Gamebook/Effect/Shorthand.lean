import Gamebook.Effect.Tagged
import Gamebook.Condition.Shorthand

/-!
# Effects as text

Authors write effects on one line:

    setFlag:key=truth
    addResource:key=number                 the number may be negative
    setVariable:key=text
    goto:target
    randomEffect:effect|effect|…           blank members are dropped
    conditionalEffect:condition?effect     cut at the first question mark

A JSON object stands for the effect that it describes.  Any other text is kept verbatim, and so
is a random or conditional effect whose parts are missing.  There is no shorthand for setting or
multiplying a resource.
-/

namespace Gamebook.Effect

open Text (strip dropPrefix? cutAt? pieces joinWith)
open Condition (isLine cutAssignment?)

/-- Reads the part behind `setFlag:`. -/
def ofSetFlag? (cs : List Char) : Option Effect :=
  (cutAssignment? cs).map fun r => .setFlag r.1 (Tagged.truthOfText r.2)

/-- Reads the part behind `addResource:`. -/
def ofAddResource? (cs : List Char) : Except RangeError (Option Effect) :=
  match cutAssignment? cs with
  | none => .ok none
  | some (key, line) =>
    match Number.Parts.ofPlain? line with
    | none => .ok none
    | some parts => do return some (.addResource key (← parts.toNumber))

/-- Reads the part behind `setVariable:`. -/
def ofSetVariable? (cs : List Char) : Option Effect :=
  (cutAssignment? cs).map fun r => .setVariable r.1 (.text (String.ofList r.2))

/-- Reads the part behind `goto:`. -/
def ofGoto? (cs : List Char) : Option Effect :=
  let target := strip cs
  if target.isEmpty || !isLine cs then none else some (.goto (String.ofList target))

/-- The forms of effects without members: how a text begins and how the rest is read. -/
def forms : List (String × (List Char → Except RangeError (Option Effect))) :=
  [("setFlag:", fun cs => .ok (ofSetFlag? cs)), ("addResource:", ofAddResource?),
   ("setVariable:", fun cs => .ok (ofSetVariable? cs)), ("goto:", fun cs => .ok (ofGoto? cs))]

/-- Reads a text in the shorthand of an effect without members. -/
def ofShorthand? (cs : List Char) : Except RangeError (Option Effect) :=
  forms.findSomeM? fun form =>
    match dropPrefix? form.1.toList cs with
    | some rest => form.2 rest
    | none => .ok none

/-- Reads a tagged object; one that describes no effect is kept as the given text, if there is
one. -/
def ofObject (d : Datum) (text : Except RangeError (List Char)) : Except RangeError Effect :=
  match ofDatum d with
  | .ok e => .ok e
  | .error (.tagged _) => text.map fun cs => .verbatim (String.ofList cs)
  | .error (.range e) => .error e

/-- How a text for an effect begins. -/
inductive Form where
  /-- An object in JSON. -/
  | object
  /-- A choice between the members behind the beginning. -/
  | random (members : List Char)
  /-- A condition and an effect behind the beginning. -/
  | conditional (parts : List Char)
  /-- Anything else. -/
  | simple

/-- Tells how a text begins. -/
def Form.ofText (cs : List Char) : Form :=
  match cs with
  | '\x7b' :: _ => .object
  | _ =>
    match dropPrefix? "randomEffect:".toList cs with
    | some members => .random members
    | none =>
      match dropPrefix? "conditionalEffect:".toList cs with
      | some parts => .conditional parts
      | none => .simple

theorem length_strip_le (cs : List Char) : (strip cs).length ≤ cs.length := by
  unfold strip Text.trim
  simp only [List.length_reverse]
  refine Nat.le_trans (List.dropWhile_sublist _).length_le ?_
  simp only [List.length_reverse]
  exact (List.dropWhile_sublist _).length_le

theorem Form.length_lt_of_random {cs members : List Char}
    (h : Form.ofText cs = .random members) : members.length < cs.length := by
  unfold Form.ofText at h
  split at h
  · simp at h
  · split at h
    · next hm =>
      rw [Text.eq_append_of_dropPrefix? hm, List.length_append]
      cases h
      exact Nat.lt_add_of_pos_left (by decide)
    · split at h <;> simp at h

theorem Form.length_lt_of_conditional {cs parts : List Char}
    (h : Form.ofText cs = .conditional parts) : parts.length < cs.length := by
  unfold Form.ofText at h
  split at h
  · simp at h
  · split at h
    · simp at h
    · split at h
      · next hm =>
        rw [Text.eq_append_of_dropPrefix? hm, List.length_append]
        cases h
        exact Nat.lt_add_of_pos_left (by decide)
      · simp at h

/-- Reads a text that is not empty and without blanks around it. -/
def ofStripped (cs : List Char) : Except RangeError Effect :=
  match _h : Form.ofText cs with
  | .object =>
    match Datum.read cs with
    | .ok d => ofObject d (.ok cs)
    | .error (.malformed _) => .ok (.verbatim (String.ofList cs))
    | .error (.range e) => .error e
  | .random members => do
    let read ← ((pieces '|' members).attach.filter fun p => !(strip p.1).isEmpty).mapM
      fun p => ofStripped (strip p.1)
    if read.isEmpty then return .verbatim (String.ofList cs) else return .oneOf read
  | .conditional parts =>
    match _hc : cutAt? '?' parts with
    | none => (Condition.ofText parts).map fun _ => .verbatim (String.ofList cs)
    | some (condition, effect) => do
      match ← Condition.ofText condition with
      | none =>
        if !(strip effect).isEmpty then let _ ← ofStripped (strip effect)
        return .verbatim (String.ofList cs)
      | some c =>
        if (strip effect).isEmpty then return .verbatim (String.ofList cs)
        else return .provided c (← ofStripped (strip effect))
  | .simple => do return (← ofShorthand? cs).getD (.verbatim (String.ofList cs))
termination_by cs.length
decreasing_by
  · have h1 := Form.length_lt_of_random _h
    have h2 := Text.length_le_of_mem_pieces p.2
    have h3 := length_strip_le p.1
    omega
  all_goals
    have h1 := Form.length_lt_of_conditional _h
    have h2 := length_strip_le effect
    have h3 := congrArg List.length (Text.eq_append_of_cutAt? _hc)
    simp only [List.length_append, List.length_cons] at h3
    omega

/-- Reads a text; a blank one is no effect. -/
def ofText (cs : List Char) : Except RangeError (Option Effect) :=
  let cs := strip cs
  if cs.isEmpty then .ok none else (ofStripped cs).map some

/-- Reads a text or an object; any other datum is no effect. -/
def ofTextOrObject : Datum → Except RangeError (Option Effect)
  | .text s => ofText s.toList
  | .object ms => (ofObject (.object ms) (Datum.object ms).literal).map some
  | _ => .ok none

/-- A text for an effect if it reads back, and the object otherwise. -/
def shorthandOrObject (cs : List Char) (e : Effect) : Except RangeError (List Char) := do
  let object ← e.toDatum.literal
  match ← ofText cs with
  | some f => return if f.agrees e then cs else object
  | none => return object

mutual

/-- The text of an effect: its shorthand if that reads back as the same effect, and a JSON object
otherwise.  A number with too many digits has no notation in either.  Reading back fails where a
part of the shorthand stands for an object with a number that is out of range. -/
def renderChars : Effect → Except RangeError (List Char)
  | .verbatim text => .ok text.toList
  | .setFlag key value =>
    shorthandOrObject ("setFlag:".toList ++ key.toList ++ '=' :: Condition.truthWord value)
      (.setFlag key value)
  | .addResource key delta =>
    shorthandOrObject ("addResource:".toList ++ key.toList ++ '=' :: delta.plainText)
      (.addResource key delta)
  | .setVariable key value =>
    shorthandOrObject ("setVariable:".toList ++ key.toList ++ '=' :: value.toDatum.plain)
      (.setVariable key value)
  | .goto target => shorthandOrObject ("goto:".toList ++ target.toList) (.goto target)
  | .oneOf [] => (toDatum (.oneOf [])).literal
  | .oneOf (e :: es) => do
    let members := (← renderChars e) :: (← renderEach es)
    shorthandOrObject ("randomEffect:".toList ++ joinWith ['|'] members) (.oneOf (e :: es))
  | .provided condition member => do
    let cs ← condition.renderChars
    shorthandOrObject ("conditionalEffect:".toList ++ cs ++ '?' :: (← renderChars member))
      (.provided condition member)
  | .multiplyResource key factor => (toDatum (.multiplyResource key factor)).literal
  | .setResource key value => (toDatum (.setResource key value)).literal

/-- The texts of several effects. -/
def renderEach : List Effect → Except RangeError (List (List Char))
  | [] => .ok []
  | e :: es => do return (← renderChars e) :: (← renderEach es)

end

/-- The text of an effect. -/
def render (e : Effect) : Except RangeError String :=
  e.renderChars.map String.ofList

end Gamebook.Effect
