/-
UTF-8 read strictly: overlong forms, surrogates and values beyond U+10FFFF are refused, and
the first fault is reported with the bytes it covers.
-/

namespace SvgTree
namespace Text

inductive Utf8Reason where
  | start
  | continuation
  | ending
  deriving DecidableEq

def Utf8Reason.text : Utf8Reason → String
  | .start => "invalid start byte"
  | .continuation => "invalid continuation byte"
  | .ending => "unexpected end of data"

/-- The first fault: the byte it begins with, its offset, and how many bytes it covers. -/
structure Utf8Error where
  byte : UInt8
  offset : Nat
  span : Nat
  reason : Utf8Reason

/-- How many bytes follow a first byte, with the bounds of the one right after it. -/
def sequenceOf (b : UInt8) : Option (Nat × UInt8 × UInt8) :=
  if b < 0xC2 then none
  else if b < 0xE0 then some (1, 0x80, 0xBF)
  else if b == 0xE0 then some (2, 0xA0, 0xBF)
  else if b == 0xED then some (2, 0x80, 0x9F)
  else if b < 0xF0 then some (2, 0x80, 0xBF)
  else if b == 0xF0 then some (3, 0x90, 0xBF)
  else if b < 0xF4 then some (3, 0x80, 0xBF)
  else if b == 0xF4 then some (3, 0x80, 0x8F)
  else none

def leadBits (b : UInt8) (more : Nat) : Nat := b.toNat % Nat.pow 2 (6 - more)

/-- The rest of a sequence: the code point, or the number of bytes that were good and why it
ended. -/
def readTail (low high : UInt8) (acc read : Nat) :
    Nat → List UInt8 → Except (Nat × Utf8Reason) Nat
  | 0, _ => .ok acc
  | _ + 1, [] => .error (read, .ending)
  | more + 1, b :: rest =>
    if low ≤ b && b ≤ high then readTail 0x80 0xBF (acc * 64 + b.toNat % 64) (read + 1) more rest
    else .error (read, .continuation)

def decodeUtf8From (offset : Nat) :
    List UInt8 → Nat → List Char → List Char × Option (Utf8Error × List UInt8)
  | [], _, acc => (acc.reverse, none)
  | _ :: rest, skip + 1, acc => decodeUtf8From (offset + 1) rest skip acc
  | b :: rest, 0, acc =>
    if b < 0x80 then decodeUtf8From (offset + 1) rest 0 (Char.ofNat b.toNat :: acc)
    else match sequenceOf b with
      | none => (acc.reverse, some (⟨b, offset, 1, .start⟩, b :: rest))
      | some (more, low, high) =>
        match readTail low high (leadBits b more) 1 more rest with
        | .ok n => decodeUtf8From (offset + 1) rest more (Char.ofNat n :: acc)
        | .error (span, reason) => (acc.reverse, some (⟨b, offset, span, reason⟩, b :: rest))

def decodeUtf8 (bytes : List UInt8) : Except Utf8Error (List Char) :=
  match decodeUtf8From 0 bytes 0 [] with
  | (cs, none) => .ok cs
  | (_, some (e, _)) => .error e

end Text
end SvgTree
