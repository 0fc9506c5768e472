import Kestrel.Text.Lines
import Kestrel.Text.Quoted

/-!
# Strict UTF-8

Bytes are read as UTF-8 one at a time. A sequence that is not well formed stops the reading with the
longest part of it that could still have been the start of a character, and a reason:

* a byte that can start no character,
* a byte that cannot continue the character begun, or
* an end inside a character.

`decode` gives the characters or the first `Malformed` sequence; `Malformed.text` words it.
-/

namespace Kestrel.Text.Utf8

/-- Why a byte sequence is no UTF-8. -/
inductive Reason where
  /-- the byte starts no character -/
  | invalidStart
  /-- the byte after the sequence does not continue it -/
  | invalidContinuation
  /-- the bytes end inside the sequence -/
  | unexpectedEnd
  deriving DecidableEq, Repr

/-- The wording of a reason. -/
def Reason.text : Reason → String
  | .invalidStart => "invalid start byte"
  | .invalidContinuation => "invalid continuation byte"
  | .unexpectedEnd => "unexpected end of data"

/-- A sequence that is no UTF-8: the positions of its first byte and of the byte after its last one,
and what is wrong with it. -/
structure Malformed where
  /-- the bytes that were read -/
  bytes : List UInt8
  /-- the position of the first byte of the sequence -/
  start : Nat
  /-- the position after its last byte -/
  stop : Nat
  /-- what is wrong -/
  reason : Reason
  deriving DecidableEq, Repr

/-- A character that has begun: where, how many bytes are still owed, the range of the next one, and
the bits read so far. -/
structure Begun where
  /-- the position of the first byte -/
  start : Nat
  /-- the number of bytes still to come -/
  owed : Nat
  /-- the least byte that may come next -/
  low : Nat
  /-- the greatest byte that may come next -/
  high : Nat
  /-- the bits read so far -/
  bits : Nat

/-- What the first byte of a character of several bytes promises; nothing if no character starts with
it. The ranges of the second byte leave out overlong forms, surrogates and code points that are too
large. -/
def begin? (pos b : Nat) : Option Begun :=
  if 0xC2 ≤ b ∧ b ≤ 0xDF then some ⟨pos, 1, 0x80, 0xBF, b - 0xC0⟩
  else if b = 0xE0 then some ⟨pos, 2, 0xA0, 0xBF, 0⟩
  else if b = 0xED then some ⟨pos, 2, 0x80, 0x9F, 0xD⟩
  else if 0xE1 ≤ b ∧ b ≤ 0xEF then some ⟨pos, 2, 0x80, 0xBF, b - 0xE0⟩
  else if b = 0xF0 then some ⟨pos, 3, 0x90, 0xBF, 0⟩
  else if 0xF1 ≤ b ∧ b ≤ 0xF3 then some ⟨pos, 3, 0x80, 0xBF, b - 0xF0⟩
  else if b = 0xF4 then some ⟨pos, 3, 0x80, 0x8F, 4⟩
  else none

/-- Reads the bytes from position `pos` on. `done` holds the characters read so far, the last one
first, and `begun` the character that the bytes before `pos` have begun, if any. -/
def decodeFrom (done : List Char) : (pos : Nat) → Option Begun → List UInt8 →
    Except (Nat × Nat × Reason) (List Char)
  | _, none, [] => .ok done.reverse
  | pos, some begun, [] => .error (begun.start, pos, .unexpectedEnd)
  | pos, none, b :: bs =>
    if b.toNat < 0x80 then decodeFrom (Char.ofNat b.toNat :: done) (pos + 1) none bs
    else
      match begin? pos b.toNat with
      | none => .error (pos, pos + 1, .invalidStart)
      | some begun => decodeFrom done (pos + 1) (some begun) bs
  | pos, some begun, b :: bs =>
    if begun.low ≤ b.toNat ∧ b.toNat ≤ begun.high then
      let bits := begun.bits * 64 + (b.toNat - 0x80)
      if begun.owed ≤ 1 then decodeFrom (Char.ofNat bits :: done) (pos + 1) none bs
      else decodeFrom done (pos + 1) (some ⟨begun.start, begun.owed - 1, 0x80, 0xBF, bits⟩) bs
    else .error (begun.start, pos, .invalidContinuation)

/-- The characters that the bytes encode, or the first sequence that is no UTF-8. A byte order mark
is a character like any other. -/
def decode (bytes : List UInt8) : Except Malformed (List Char) :=
  match decodeFrom [] 0 none bytes with
  | .ok cs => .ok cs
  | .error (start, stop, reason) => .error ⟨bytes, start, stop, reason⟩

/-- The bytes of a malformed sequence and where they stand: a single byte is shown. -/
def Malformed.place (e : Malformed) : String :=
  if e.stop = e.start + 1 then
    let shown := String.ofList (hexDigits 2 ((e.bytes[e.start]?.getD 0).toNat))
    "byte 0x" ++ shown ++ " in position " ++ toString e.start
  else
    "bytes in position " ++ toString e.start ++ "-" ++ toString (e.stop - 1)

/-- The wording of a malformed sequence. -/
def Malformed.text (e : Malformed) : String :=
  "'utf-8' codec can't decode " ++ e.place ++ ": " ++ e.reason.text

/-- A character of three bytes, the same cut off, and a byte that starts no character. -/
example :
    decodeFrom [] 0 none [0xE2, 0x82, 0xAC] = .ok ['€'] ∧
    decodeFrom [] 0 none [0x61, 0xE2, 0x82] = .error (1, 3, .unexpectedEnd) ∧
    decodeFrom [] 0 none [0xFF] = .error (0, 1, .invalidStart) :=
  ⟨rfl, rfl, rfl⟩

end Kestrel.Text.Utf8
