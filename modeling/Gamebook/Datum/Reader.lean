import Gamebook.Datum

/-!
# Reading documents

A reader for JSON text, with the words `NaN`, `Infinity` and `-Infinity` for numbers that are not
finite.  Each function reads one piece off the front of a text and returns it with the rest; at
a fault it returns the cause and the rest of the text from the place of the fault on, so that
the place is the difference of two lengths.

A number with a fraction or an exponent is a floating point number, any other an integer.  An
integer with too many digits ends the reading with an error of its own, whatever follows it.
-/

namespace Gamebook.Datum

/-- What is wrong with a text that is no document. -/
inductive ReadCause where
  | expectingValue
  | expectingName
  | expectingColon
  | expectingComma
  | extraData
  | unterminatedText
  | controlCharacter
  | badEscape
  | badUnicodeEscape
  | byteOrderMark
  deriving DecidableEq, Repr

/-- The wording of a cause. -/
def ReadCause.message : ReadCause → String
  | .expectingValue => "Expecting value"
  | .expectingName => "Expecting property name enclosed in double quotes"
  | .expectingColon => "Expecting ':' delimiter"
  | .expectingComma => "Expecting ',' delimiter"
  | .extraData => "Extra data"
  | .unterminatedText => "Unterminated string starting at"
  | .controlCharacter => "Invalid control character at"
  | .badEscape => "Invalid \\escape"
  | .badUnicodeEscape => "Invalid \\uXXXX escape"
  | .byteOrderMark => "Unexpected UTF-8 BOM (decode using utf-8-sig)"

/-- A fault in a text: its cause, the number of characters before it, and its line and column,
counted from one. -/
structure ReadFault where
  cause : ReadCause
  position : Nat
  line : Nat
  column : Nat
  deriving DecidableEq, Repr

/-- The fault in `cs` where `rest` is what follows the place of the fault. -/
def ReadFault.locate (cs : List Char) (cause : ReadCause) (rest : List Char) : ReadFault :=
  let before := cs.take (cs.length - rest.length)
  { cause
    position := before.length
    line := before.count '\n' + 1
    column := (before.reverse.takeWhile (· != '\n')).length + 1 }

/-- The wording of a fault. -/
def ReadFault.message (f : ReadFault) : String :=
  s!"{f.cause.message}: line {f.line} column {f.column} (char {f.position})"

/-- Why reading fails: the text is no document, or one of its integers is not read. -/
inductive ReadError where
  | malformed (fault : ReadFault)
  | range (error : RangeError)
  deriving DecidableEq, Repr

namespace Reader

/-- Why a reader stops: at a fault, with the rest of the text from there on, or at an integer that
is not read. -/
inductive Fault where
  | malformed (cause : ReadCause) (rest : List Char)
  | range (error : RangeError)
  deriving DecidableEq, Repr

/-- The blanks of a document. -/
def isBlank (c : Char) : Bool :=
  c = ' ' || c = '\t' || c = '\n' || c = '\r'

/-- Removes leading blanks. -/
def skip (cs : List Char) : List Char :=
  cs.dropWhile isBlank

/-- The character that a letter denotes behind a backslash. -/
def escaped? : Char → Option Char
  | '"' => some '"'
  | '\\' => some '\\'
  | '/' => some '/'
  | 'b' => some (Char.ofNat 8)
  | 'f' => some (Char.ofNat 12)
  | 'n' => some '\n'
  | 'r' => some '\r'
  | 't' => some '\t'
  | _ => none

/-- The number that four hexadecimal digits denote. -/
def unit? (a b c d : Char) : Option Nat := do
  return (((← Numeral.hexValue? a) * 16 + (← Numeral.hexValue? b)) * 16
    + (← Numeral.hexValue? c)) * 16 + (← Numeral.hexValue? d)

/-- Whether a code unit opens a pair. -/
def opensPair (u : Nat) : Bool :=
  0xD800 ≤ u && u ≤ 0xDBFF

/-- Whether a code unit closes a pair. -/
def closesPair (u : Nat) : Bool :=
  0xDC00 ≤ u && u ≤ 0xDFFF

/-- The character that stands for half a pair, which is no character: for each half another one of the
private characters at the end of the code range. -/
def halfChar (u : Nat) : Char :=
  Char.ofNat (0x10F800 + (u - 0xD800))

/-- The character of a single code unit. -/
def unitChar (u : Nat) : Char :=
  if opensPair u || closesPair u then halfChar u else Char.ofNat u

/-- The character of a pair of code units. -/
def pairChar (u v : Nat) : Char :=
  Char.ofNat (0x10000 + (u - 0xD800) * 0x400 + (v - 0xDC00))

/-- The characters of code units, where two units may form a pair. -/
def ofUnits : List Nat → List Char
  | [] => []
  | [u] => [unitChar u]
  | u :: v :: rest =>
    if opensPair u && closesPair v then pairChar u v :: ofUnits rest
    else unitChar u :: ofUnits (v :: rest)

/-- Puts a code unit in front of a piece. -/
def consUnit (u : Nat) :
    Except Fault (List Nat × List Char) → Except Fault (List Nat × List Char)
  | .ok (us, rest) => .ok (u :: us, rest)
  | .error e => .error e

/-- Reads the rest of a text up to its closing quote, as code units.  `start` is the input from
the opening quote on.  A `u` escape needs four hexadecimal digits and one more character behind
them. -/
def readUnits (start : List Char) : List Char → Except Fault (List Nat × List Char)
  | [] => .error (.malformed .unterminatedText start)
  | '"' :: rest => .ok ([], rest)
  | ['\\'] => .error (.malformed .unterminatedText start)
  | '\\' :: 'u' :: a :: b :: c :: d :: rest =>
    match unit? a b c d, rest with
    | some u, _ :: _ => consUnit u (readUnits start rest)
    | _, _ => .error (.malformed .badUnicodeEscape ('u' :: a :: b :: c :: d :: rest))
  | '\\' :: 'u' :: rest => .error (.malformed .badUnicodeEscape ('u' :: rest))
  | '\\' :: c :: rest =>
    match escaped? c with
    | some e => consUnit e.toNat (readUnits start rest)
    | none => .error (.malformed .badEscape ('\\' :: c :: rest))
  | c :: rest =>
    if c.toNat < 0x20 then .error (.malformed .controlCharacter (c :: rest))
    else consUnit c.toNat (readUnits start rest)

/-- Reads the rest of a text up to its closing quote. -/
def readText (start cs : List Char) : Except Fault (String × List Char) :=
  match readUnits start cs with
  | .ok (us, rest) => .ok (String.ofList (ofUnits us), rest)
  | .error e => .error e

/-- Cuts the digits in front of a number's point off: a zero, or digits without a leading
zero. -/
def cutWhole : List Char → Option (List Char × List Char)
  | '0' :: rest => some (['0'], rest)
  | cs =>
    match Numeral.spanDigits cs with
    | ([], _) => none
    | (ds, rest) => some (ds, rest)

/-- Cuts the parts of a number off. -/
def cutNumber? (cs : List Char) : Option (Number.Parts × List Char) := do
  let (negative, body) := Number.cutMinus cs
  let (whole, rest) ← cutWhole body
  match Number.cutFraction rest with
  | some (fraction, rest) =>
    match Number.cutExponent rest with
    | some (exponent, rest) => return ({ negative, whole, fraction, exponent }, rest)
    | none => return ({ negative, whole, fraction }, rest)
  | none =>
    match Number.cutExponent rest with
    | some (exponent, rest) => return ({ negative, whole, exponent }, rest)
    | none => return ({ negative, whole }, rest)

/-- Cuts a word off. -/
def cutWord : (word cs : List Char) → Option (List Char)
  | [], cs => some cs
  | w :: ws, c :: cs => if w = c then cutWord ws cs else none
  | _ :: _, [] => none

/-- The words that denote values. -/
def words : List (List Char × Datum) :=
  [("null".toList, .null), ("true".toList, .truth true), ("false".toList, .truth false),
   ("NaN".toList, .number (.float (.undefined .written))),
   ("Infinity".toList, .number (.float (.infinite false))),
   ("-Infinity".toList, .number (.float (.infinite true)))]

/-- Reads a word or a number. -/
def readScalar (cs : List Char) : Except Fault (Datum × List Char) :=
  match words.findSome? fun (w, d) => (cutWord w cs).map (d, ·) with
  | some r => .ok r
  | none =>
    match cutNumber? cs with
    | some (parts, rest) =>
      match parts.toNumber with
      | .ok n => .ok (.number n, rest)
      | .error e => .error (.range e)
    | none => .error (.malformed .expectingValue cs)

mutual

/-- Reads a value.  `fuel` bounds the depth of the calls.  An opening bracket takes two of them, one
for the list and one for its first item, and no other two are made without a character between
them, so twice the length of a text is enough for it. -/
def readValue : (fuel : Nat) → List Char → Except Fault (Datum × List Char)
  | 0, cs => .error (.malformed .expectingValue cs)
  | fuel + 1, cs =>
    match cs with
    | '"' :: rest => do
      let (s, rest) ← readText cs rest
      return (.text s, rest)
    | '[' :: rest =>
      match skip rest with
      | ']' :: rest => .ok (.list [], rest)
      | rest => do
        let (items, rest) ← readItems fuel rest
        return (.list items, rest)
    | '\x7b' :: rest =>
      match skip rest with
      | '\x7d' :: rest => .ok (.object [], rest)
      | rest => do
        let (members, rest) ← readMembers fuel rest
        return (.object members, rest)
    | cs => readScalar cs

/-- Reads the items of a list up to its closing bracket. -/
def readItems : (fuel : Nat) → List Char → Except Fault (List Datum × List Char)
  | 0, cs => .error (.malformed .expectingValue cs)
  | fuel + 1, cs => do
    let (d, rest) ← readValue fuel cs
    match skip rest with
    | ']' :: rest => return ([d], rest)
    | ',' :: rest =>
      let (ds, rest) ← readItems fuel (skip rest)
      return (d :: ds, rest)
    | rest => throw (.malformed .expectingComma rest)

/-- Reads the members of an object up to its closing brace. -/
def readMembers : (fuel : Nat) → List Char → Except Fault (List (String × Datum) × List Char)
  | 0, cs => .error (.malformed .expectingName cs)
  | fuel + 1, cs =>
    match cs with
    | '"' :: rest => do
      let (name, rest) ← readText cs rest
      match skip rest with
      | ':' :: rest =>
        let (d, rest) ← readValue fuel (skip rest)
        match skip rest with
        | '\x7d' :: rest => return ([(name, d)], rest)
        | ',' :: rest =>
          let (ms, rest) ← readMembers fuel (skip rest)
          return ((name, d) :: ms, rest)
        | rest => throw (.malformed .expectingComma rest)
      | rest => throw (.malformed .expectingColon rest)
    | cs => .error (.malformed .expectingName cs)

end

/-- Reads a whole text. -/
def readAll (cs : List Char) : Except Fault Datum :=
  match cs with
  | '\ufeff' :: _ => .error (.malformed .byteOrderMark cs)
  | _ => do
    let (d, rest) ← readValue (2 * cs.length + 1) (skip cs)
    match skip rest with
    | [] => return d
    | rest => throw (.malformed .extraData rest)

end Reader

/-- Reads a document as it is written, with repeated members. -/
def readWritten (cs : List Char) : Except ReadError Datum :=
  match Reader.readAll cs with
  | .ok d => .ok d
  | .error (.malformed cause rest) => .error (.malformed (ReadFault.locate cs cause rest))
  | .error (.range e) => .error (.range e)

/-- Reads a document. -/
def read (cs : List Char) : Except ReadError Datum :=
  (readWritten cs).map settle

end Gamebook.Datum
