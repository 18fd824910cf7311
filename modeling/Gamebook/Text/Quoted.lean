import Gamebook.Text.Numeral
import Gamebook.Text.Printable

/-!
# Quoted text

Two ways to write a text between quotes.  `quoted` is for messages: single quotes, or double
quotes if the text contains single quotes only, and escapes for what is not printable.
`documentQuoted` is for documents: double quotes and escapes for nothing but the quote, the
backslash and the control characters below the space.
-/

namespace Gamebook.Text

/-- The escape of a character that is not printable. -/
def codeEscape (c : Char) : List Char :=
  let n := c.toNat
  if n ≤ 0xFF then '\\' :: 'x' :: Numeral.hexDigits 2 n
  else if n ≤ 0xFFFF then '\\' :: 'u' :: Numeral.hexDigits 4 n
  else '\\' :: 'U' :: Numeral.hexDigits 8 n

/-- One character inside quotes of a message. -/
def quotedChar (quote c : Char) : List Char :=
  if c = quote ∨ c = '\\' then ['\\', c]
  else if c = '\n' then ['\\', 'n']
  else if c = '\r' then ['\\', 'r']
  else if c = '\t' then ['\\', 't']
  else if isPrintable c then [c]
  else codeEscape c

/-- A text as messages quote it. -/
def quoted (cs : List Char) : List Char :=
  let quote := if cs.contains '\'' && !cs.contains '"' then '"' else '\''
  quote :: cs.flatMap (quotedChar quote) ++ [quote]

/-- One character inside quotes of a document. -/
def documentChar (c : Char) : List Char :=
  if c = '"' then ['\\', '"']
  else if c = '\\' then ['\\', '\\']
  else if c = '\n' then ['\\', 'n']
  else if c = '\r' then ['\\', 'r']
  else if c = '\t' then ['\\', 't']
  else if c.toNat = 8 then ['\\', 'b']
  else if c.toNat = 12 then ['\\', 'f']
  else if c.toNat < 0x20 then '\\' :: 'u' :: Numeral.hexDigits 4 c.toNat
  else [c]

/-- A text as documents quote it. -/
def documentQuoted (cs : List Char) : List Char :=
  '"' :: cs.flatMap documentChar ++ ['"']

end Gamebook.Text
