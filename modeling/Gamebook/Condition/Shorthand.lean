import Gamebook.Condition.Tagged
import Gamebook.Datum.Reader
import Gamebook.Datum.Printer

/-!
# Conditions as text

Authors write conditions on one line:

    flag:key=truth                 only true and 1 are true
    resource:key op number         op is one of >= <= > < = ==
    variable:key op text           op is one of = == != contains !contains
    time:start-stop                or timeWindow:start-stop

The key ends at the first character that can start an operator.  A JSON object stands for the
condition that it describes.  Any other text is kept verbatim.  Only a number that is out of range
makes reading fail.

`ofText` reads such texts; blanks around them do not count.  `render` writes a condition in
shorthand if that reads back as the same condition, and as a JSON object otherwise.  It fails for a
number with too many digits, which has no notation in either.
-/

namespace Gamebook.Condition

open Text (strip dropPrefix? cutAt?)

/-- A rest of a line: not empty and without a line break. -/
def isLine (cs : List Char) : Bool :=
  !cs.isEmpty && !cs.contains '\n'

/-- Cuts a text at its first `=` into a key that is not blank, stripped, and a line. -/
def cutAssignment? (cs : List Char) : Option (String × List Char) :=
  match cutAt? '=' cs with
  | none => none
  | some (key, line) =>
    let key := strip key
    if key.isEmpty || !isLine line then none else some (String.ofList key, line)

/-- Reads a time window: two numbers without signs and a hyphen between them. -/
def ofWindow? (cs : List Char) : Except RangeError (Option Condition) :=
  match cutAt? '-' cs with
  | none => .ok none
  | some (start, stop) =>
    match Number.Parts.ofDigits? false start, Number.Parts.ofDigits? false stop with
    | some a, some b => do return some (.during (← a.toNumber) (← b.toNumber))
    | _, _ => .ok none

/-- The characters that end a key in front of an operator. -/
def endsKey (c : Char) : Bool :=
  c = '=' || c = '<' || c = '>' || c = '!'

/-- Reads the operator of a resource: the longest sign, and what follows it. -/
def cutRelation? : List Char → Option (Relation × List Char)
  | '>' :: '=' :: rest => some (.atLeast, rest)
  | '<' :: '=' :: rest => some (.atMost, rest)
  | '=' :: '=' :: rest => some (.equal, rest)
  | '=' :: rest => some (.equal, rest)
  | '>' :: rest => some (.more, rest)
  | '<' :: rest => some (.less, rest)
  | _ => none

/-- Reads a test of a resource.  Where there is a key the number is read, also if the key is
blank and the text therefore no test. -/
def ofResource? (cs : List Char) : Except RangeError (Option Condition) :=
  let key := cs.takeWhile (!endsKey ·)
  match cutRelation? (cs.dropWhile (!endsKey ·)) with
  | none => .ok none
  | some (relation, rest) =>
    if key.isEmpty || rest.contains '\n' then .ok none
    else
      match Number.Parts.ofPlain? (strip rest) with
      | none => .ok none
      | some parts => do
        let value ← parts.toNumber
        let key := strip key
        return if key.isEmpty then none else some (.resourceIs (String.ofList key) relation value)

/-- Reads the operator at the end of a variable's key: the longest sign that leaves a line. -/
def cutLikeness? : List Char → Option (Likeness × List Char)
  | '=' :: '=' :: c :: rest => some (.equal, c :: rest)
  | '=' :: rest => some (.equal, rest)
  | '!' :: '=' :: rest => some (.unequal, rest)
  | '!' :: rest => (dropPrefix? "contains".toList rest).map (.lacking, ·)
  | _ => none

/-- Cuts a text at the last `contains` behind which a line is left and in front of which no
character ends the key. -/
def lastContaining? : List Char → Option (List Char × List Char)
  | [] => none
  | c :: cs =>
    if endsKey c then none
    else
      match lastContaining? cs with
      | some (key, line) => some (c :: key, line)
      | none =>
        match dropPrefix? "contains".toList (c :: cs) with
        | some line => if isLine line then some ([], line) else none
        | none => none

/-- Cuts a test of a variable into key, operator and line.  The sign behind the key is the
operator if it leaves a line; otherwise the last `contains` inside the key is. -/
def cutVariable? (cs : List Char) : Option (List Char × Likeness × List Char) :=
  match cs with
  | [] => none
  | c :: rest =>
    if endsKey c then none
    else
      let containing := (lastContaining? rest).map fun r => (c :: r.1, Likeness.containing, r.2)
      match cutLikeness? (rest.dropWhile (!endsKey ·)) with
      | some (likeness, line) =>
        if isLine line then some (c :: rest.takeWhile (!endsKey ·), likeness, line)
        else containing
      | none => containing

/-- Reads a test of a variable. -/
def ofVariable? (cs : List Char) : Option Condition :=
  match cutVariable? cs with
  | none => none
  | some (key, likeness, line) =>
    let key := strip key
    if key.isEmpty then none
    else some (.variableIs (String.ofList key) likeness (.text (String.ofList line)))

/-- Reads a test of a flag. -/
def ofFlag? (cs : List Char) : Option Condition :=
  (cutAssignment? cs).map fun r => .flagIs r.1 (Tagged.truthOfText r.2)

/-- The forms of the shorthand: how a text begins and how the rest is read. -/
def forms : List (String × (List Char → Except RangeError (Option Condition))) :=
  [("time:", ofWindow?), ("timeWindow:", ofWindow?), ("flag:", fun cs => .ok (ofFlag? cs)),
   ("resource:", ofResource?), ("variable:", fun cs => .ok (ofVariable? cs))]

/-- Reads a text in shorthand. -/
def ofShorthand? (cs : List Char) : Except RangeError (Option Condition) :=
  forms.findSomeM? fun form =>
    match dropPrefix? form.1.toList cs with
    | some rest => form.2 rest
    | none => .ok none

/-- Reads a tagged object; one that describes no condition is kept as the given text, if there is
one. -/
def ofObject (d : Datum) (text : Except RangeError (List Char)) : Except RangeError Condition :=
  match ofDatum d with
  | .ok c => .ok c
  | .error (.tagged _) => text.map fun cs => .verbatim (String.ofList cs)
  | .error (.range e) => .error e

/-- Reads a text without blanks around it. -/
def ofStripped (cs : List Char) : Except RangeError Condition :=
  match cs with
  | '\x7b' :: _ =>
    match Datum.read cs with
    | .ok d => ofObject d (.ok cs)
    | .error (.malformed _) => .ok (.verbatim (String.ofList cs))
    | .error (.range e) => .error e
  | _ => do return (← ofShorthand? cs).getD (.verbatim (String.ofList cs))

/-- Reads a text; a blank one is no condition. -/
def ofText (cs : List Char) : Except RangeError (Option Condition) :=
  let cs := strip cs
  if cs.isEmpty then .ok none else (ofStripped cs).map some

/-- Reads a text or an object; any other datum is no condition. -/
def ofTextOrObject : Datum → Except RangeError (Option Condition)
  | .text s => ofText s.toList
  | .object ms => (ofObject (.object ms) (Datum.object ms).literal).map some
  | _ => .ok none

/-- The word of a truth value. -/
def truthWord (b : Bool) : List Char :=
  if b then "true".toList else "false".toList

/-- The shorthand of a condition that has one. -/
def shorthand? : Condition → Option (List Char)
  | .flagIs key value => some ("flag:".toList ++ key.toList ++ '=' :: truthWord value)
  | .resourceIs key relation value =>
    some ("resource:".toList ++ key.toList ++ relation.sign.toList ++ value.plainText)
  | .variableIs key likeness value =>
    some ("variable:".toList ++ key.toList ++ likeness.sign.toList ++ value.toDatum.plain)
  | .during start stop =>
    some ("timeWindow:".toList ++ start.plainText ++ '-' :: stop.plainText)
  | _ => none

/-- The text of a condition: its shorthand if that reads back as the same condition, and a JSON
object otherwise. -/
def renderChars (c : Condition) : Except RangeError (List Char) :=
  match c with
  | .verbatim text => .ok text.toList
  | c => do
    let object ← c.toDatum.literal
    match shorthand? c with
    | none => return object
    | some cs =>
      match ← ofText cs with
      | some d => return if d.agrees c then cs else object
      | none => return object

/-- The text of a condition. -/
def render (c : Condition) : Except RangeError String :=
  c.renderChars.map String.ofList

end Gamebook.Condition
