import Gamebook.Playthrough
import Gamebook.Text.Digit
import Gamebook.Text.Quoted

/-!
# Playing interactively

The screen shows the current node and numbers its available choices.  A line answers with the
number or the id of a choice, or leaves with `q` or `quit`.  A choice that cannot be taken is
reported and changes nothing.
-/

namespace Gamebook.Shell

/-- The text before each answer. -/
def prompt : String :=
  "> "

/-- The choices with their numbers, a line each. -/
def choiceLines : (number : Nat) → List Choice → String
  | _, [] => ""
  | n, c :: cs =>
    let text := if c.text = "" then c.id else c.text
    s!"  {n}. {text} ({c.id})\n" ++ choiceLines (n + 1) cs

/-- Where the reader is, and the text of the node. -/
def heading (p : Playthrough) : String :=
  let text :=
    match p.story.node? p.session.node with
    | some node => if node.text = "" then "" else node.text ++ "\n"
    | none => ""
  let time := String.ofList p.session.time.toDatum.plain
  s!"\n[{p.session.node}] (time {time})\n" ++ text

/-- What the reader sees: the heading and the available choices. -/
def screen (p : Playthrough) (choices : List Choice) : String :=
  heading p ++ choiceLines 1 choices

/-- The text at the end of a story. -/
def ending : String :=
  "\nThe End.\n"

/-- What a line means. -/
inductive Answer where
  | leave
  | take (choice : String)
  /-- Digits that are no decimal number. -/
  | noNumber (text : String)
  /-- More digits than are read. -/
  | range (error : RangeError)
  deriving DecidableEq, Repr

/-- Understands a line. -/
def understand (choices : List Choice) (line : String) : Answer :=
  let word := Text.strip line.toList
  let text := String.ofList word
  if text = "q" ∨ text = "quit" then .leave
  else if Text.allDigits word then
    let count := (word.takeWhile Text.isDecimalDigit).length
    if Numeral.maxDigits < count then .range (.tooManyDigits count)
    else
      match Text.decimalValue? word with
      | none => .noNumber text
      | some 0 => .take text
      | some (n + 1) =>
        match choices[n]? with
        | some c => .take c.id
        | none => .take text
  else .take text

/-- What a line leads to. -/
inductive Reply where
  /-- The reader leaves. -/
  | left
  /-- The play-through goes on after some text. -/
  | next (text : String) (p : Playthrough)
  /-- A calculation failed, or the line has more digits than are read. -/
  | range (error : RangeError)
  /-- Digits were no decimal number. -/
  | noNumber (text : String)

/-- Answers a line, with the choices that the reader sees. -/
def reply (p : Playthrough) (choices : List Choice) (line : String) : Reply :=
  match understand choices line with
  | .leave => .left
  | .noNumber text => .noNumber text
  | .range e => .range e
  | .take id =>
    match p.choose (.text id) with
    | (none, p) => .next "" p
    | (some (.choice e), p) => .next s!"Error: {e.message}\n" p
    | (some (.range e), _) => .range e

end Gamebook.Shell
