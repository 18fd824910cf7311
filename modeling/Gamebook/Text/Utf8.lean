import Gamebook.Text.Numeral

/-!
# Decoding UTF-8

Bytes decode to characters, or to the first fault: a byte that starts no character, a byte where
a continuation was due, or an end in the middle of a character.  A fault covers the bytes of the
unfinished character up to the one that does not fit.
-/

namespace Gamebook.Text.Utf8

/-- What is wrong with bytes that are no UTF-8. -/
inductive Cause where
  | startByte
  | continuation
  | endOfData
  deriving DecidableEq, Repr

/-- The wording of a cause. -/
def Cause.message : Cause → String
  | .startByte => "invalid start byte"
  | .continuation => "invalid continuation byte"
  | .endOfData => "unexpected end of data"

/-- A fault: its cause, the position and value of the first byte that it covers, and the number of
bytes that it covers. -/
structure Fault where
  cause : Cause
  position : Nat
  lead : Nat
  count : Nat
  deriving DecidableEq, Repr

/-- The wording of a fault; the byte is shown only where it is the only one. -/
def Fault.message (f : Fault) : String :=
  let place :=
    if f.count ≤ 1 then
      s!"byte 0x{String.ofList (Numeral.hexDigits 2 f.lead)} in position {f.position}"
    else s!"bytes in position {f.position}-{f.position + f.count - 1}"
  s!"'utf-8' codec can't decode {place}: {f.cause.message}"

/-- A character of which some bytes have been read: where it starts, its first byte, how many
bytes have been read and how many are due, the range of the next byte, and the bits so far. -/
structure Pending where
  position : Nat
  lead : Nat
  count : Nat
  due : Nat
  low : Nat
  high : Nat
  bits : Nat

/-- What a first byte announces. -/
def Pending.start? (position lead : Nat) : Option Pending :=
  if 0xC2 ≤ lead ∧ lead ≤ 0xDF then some ⟨position, lead, 1, 1, 0x80, 0xBF, lead - 0xC0⟩
  else if 0xE0 ≤ lead ∧ lead ≤ 0xEF then
    some ⟨position, lead, 1, 2, if lead = 0xE0 then 0xA0 else 0x80,
      if lead = 0xED then 0x9F else 0xBF, lead - 0xE0⟩
  else if 0xF0 ≤ lead ∧ lead ≤ 0xF4 then
    some ⟨position, lead, 1, 3, if lead = 0xF0 then 0x90 else 0x80,
      if lead = 0xF4 then 0x8F else 0xBF, lead - 0xF0⟩
  else none

/-- The fault at an unfinished character. -/
def Pending.fault (p : Pending) (cause : Cause) : Fault :=
  ⟨cause, p.position, p.lead, p.count⟩

/-- Decodes bytes from a position on, with a character pending or not. -/
def decodeFrom (position : Nat) : Option Pending → List Nat → Except Fault (List Char)
  | none, [] => .ok []
  | some p, [] => .error (p.fault .endOfData)
  | none, b :: bs =>
    if b < 0x80 then (decodeFrom (position + 1) none bs).map (Char.ofNat b :: ·)
    else
      match Pending.start? position b with
      | some p => decodeFrom (position + 1) (some p) bs
      | none => .error ⟨.startByte, position, b, 1⟩
  | some p, b :: bs =>
    if p.low ≤ b ∧ b ≤ p.high then
      let bits := p.bits * 64 + (b - 0x80)
      if p.due ≤ 1 then (decodeFrom (position + 1) none bs).map (Char.ofNat bits :: ·)
      else
        decodeFrom (position + 1)
          (some ⟨p.position, p.lead, p.count + 1, p.due - 1, 0x80, 0xBF, bits⟩) bs
    else .error (p.fault .continuation)

/-- Decodes bytes. -/
def decode (bytes : List Nat) : Except Fault (List Char) :=
  decodeFrom 0 none bytes

end Gamebook.Text.Utf8
