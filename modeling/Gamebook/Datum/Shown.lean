import Gamebook.Datum
import Gamebook.Text.Pieces
import Gamebook.Text.Quoted

/-!
# Data in messages

How a message shows a datum: `shown` writes it with `None`, `True` and `False`, texts in message
quotes, lists in square brackets and objects in braces.  `plain` is the same except that a text
stands for itself, and `comparedText` has forms of its own for what variables are compared with.
-/

namespace Gamebook.Datum

open Text (joinWith)

mutual

/-- A datum as a message shows it. -/
def shown : Datum → List Char
  | .null => "None".toList
  | .truth true => "True".toList
  | .truth false => "False".toList
  | .number n => n.text
  | .text s => Text.quoted s.toList
  | .list items => '[' :: joinWith [',', ' '] (shownItems items) ++ [']']
  | .object members => '\x7b' :: joinWith [',', ' '] (shownMembers members) ++ ['\x7d']

/-- The items of a list. -/
def shownItems : List Datum → List (List Char)
  | [] => []
  | d :: ds => shown d :: shownItems ds

/-- The members of an object, each with a colon behind its name. -/
def shownMembers : List (String × Datum) → List (List Char)
  | [] => []
  | (k, d) :: ms => (Text.quoted k.toList ++ ':' :: ' ' :: shown d) :: shownMembers ms

end

/-- A datum as running text: a text as it is, anything else as it is shown. -/
def plain : Datum → List Char
  | .text s => s.toList
  | d => d.shown

/-- A datum as the text by which it is compared: null has no characters, truth values are written
in lower case, and an integral number has one form whatever its kind. -/
def comparedText : Datum → List Char
  | .null => []
  | .truth true => "true".toList
  | .truth false => "false".toList
  | .number n => n.plainText
  | d => d.plain

end Gamebook.Datum
