import Gamebook.Datum.Shown

/-!
# Writing documents

`compact` writes a datum on one line without spaces.  `indented` writes one member or item a
line, two spaces deeper than the brackets around them; empty lists and objects stay on one line.
Characters outside ASCII are written as they are, and numbers that are not finite as `NaN`,
`Infinity` and `-Infinity`.
-/

namespace Gamebook.Datum

open Text (joinWith)

/-- A number in a document. -/
def numberText : Number → List Char
  | .float (.undefined _) => "NaN".toList
  | .float (.infinite false) => "Infinity".toList
  | .float (.infinite true) => "-Infinity".toList
  | n => n.text

mutual

/-- A datum on one line. -/
def compact : Datum → List Char
  | .null => "null".toList
  | .truth true => "true".toList
  | .truth false => "false".toList
  | .number n => numberText n
  | .text s => Text.documentQuoted s.toList
  | .list items => '[' :: joinWith [','] (compactItems items) ++ [']']
  | .object members => '\x7b' :: joinWith [','] (compactMembers members) ++ ['\x7d']

/-- The items of a list. -/
def compactItems : List Datum → List (List Char)
  | [] => []
  | d :: ds => compact d :: compactItems ds

/-- The members of an object. -/
def compactMembers : List (String × Datum) → List (List Char)
  | [] => []
  | (k, d) :: ms => (Text.documentQuoted k.toList ++ ':' :: compact d) :: compactMembers ms

end

/-- A line break and the indentation of a depth. -/
def lineBreak (depth : Nat) : List Char :=
  '\n' :: List.replicate (2 * depth) ' '

/-- Lays parts out between brackets, a line each. -/
def block (depth : Nat) (opening closing : Char) : List (List Char) → List Char
  | [] => [opening, closing]
  | parts =>
    opening :: lineBreak (depth + 1) ++ joinWith (',' :: lineBreak (depth + 1)) parts
      ++ lineBreak depth ++ [closing]

mutual

/-- A datum at a depth of indentation. -/
def indentedAt (depth : Nat) : Datum → List Char
  | .list items => block depth '[' ']' (indentedItems (depth + 1) items)
  | .object members => block depth '\x7b' '\x7d' (indentedMembers (depth + 1) members)
  | .null => "null".toList
  | .truth true => "true".toList
  | .truth false => "false".toList
  | .number n => numberText n
  | .text s => Text.documentQuoted s.toList

/-- The items of a list. -/
def indentedItems (depth : Nat) : List Datum → List (List Char)
  | [] => []
  | d :: ds => indentedAt depth d :: indentedItems depth ds

/-- The members of an object. -/
def indentedMembers (depth : Nat) : List (String × Datum) → List (List Char)
  | [] => []
  | (k, d) :: ms =>
    (Text.documentQuoted k.toList ++ ':' :: ' ' :: indentedAt depth d) :: indentedMembers depth ms

end

/-- A datum with one member or item a line. -/
def indented (d : Datum) : List Char :=
  indentedAt 0 d

mutual

/-- Whether some number in a datum has more digits than are written. -/
def hasTooLong : Datum → Bool
  | .number n => n.isTooLong
  | .list items => someTooLong items
  | .object members => memberTooLong members
  | _ => false

/-- Whether some number in the items has more digits than are written. -/
def someTooLong : List Datum → Bool
  | [] => false
  | d :: ds => hasTooLong d || someTooLong ds

/-- Whether some number in the members has more digits than are written. -/
def memberTooLong : List (String × Datum) → Bool
  | [] => false
  | (_, d) :: ms => hasTooLong d || memberTooLong ms

end

/-- A datum with one member or item a line, if all its numbers can be written. -/
def write (d : Datum) : Except RangeError (List Char) :=
  if d.hasTooLong then .error .tooLong else .ok d.indented

/-- A datum on one line, if all its numbers can be written. -/
def literal (d : Datum) : Except RangeError (List Char) :=
  if d.hasTooLong then .error .tooLong else .ok d.compact

/-- The text by which a datum is compared, if all its numbers can be written. -/
def writeCompared (d : Datum) : Except RangeError (List Char) :=
  if d.hasTooLong then .error .tooLong else .ok d.comparedText

end Gamebook.Datum
