/-
Encodings of documents given as bytes.

A byte-order mark decides first; without one a document whose first character has a zero
byte is of two bytes a character, and every other document names its encoding in its
declaration or is UTF-8.
-/
import SvgTree.Markup.Declaration
import SvgTree.Text.Utf8

namespace SvgTree
namespace Markup

inductive Encoding where
  | utf8
  | utf16 (bigEndian : Bool)
  | latin1
  | ascii
  deriving DecidableEq

/-- A character that marks what cannot be read may not come from the document itself. -/
def unmarkedChar (c : Char) : Char := if c == cutMark || c == oddMark then badMark else c

def unmarked (cs : List Char) : List Char := cs.map unmarkedChar

def announced (b : UInt8) : Nat :=
  if b < 0xC0 then 1
  else if b < 0xE0 then 2
  else if b < 0xF0 then 3
  else if b < 0xF5 then 4
  else 1

/-- The characters of UTF-8, up to the first fault. -/
def decode8 (bytes : List UInt8) : List Char :=
  match Text.decodeUtf8From 0 bytes 0 [] with
  | (cs, none) => unmarked cs
  | (cs, some (e, rest)) =>
    unmarked cs ++ [if rest.length < announced e.byte then cutMark else badMark]

/-- The characters of pairs of bytes; two surrogates in order make one. -/
def decode16 (bigEndian : Bool) : List UInt8 → Option Nat → List Char
  | [], none => []
  | [], some _ => [cutMark]
  | [_], none => [oddMark]
  | [_], some _ => [cutMark]
  | a :: b :: rest, high =>
    let n := if bigEndian then a.toNat * 256 + b.toNat else b.toNat * 256 + a.toNat
    match high with
    | some h =>
      if 0xDC00 ≤ n && n < 0xE000 then
        Char.ofNat (0x10000 + (h - 0xD800) * 1024 + (n - 0xDC00)) :: decode16 bigEndian rest none
      else [badMark]
    | none =>
      if 0xD800 ≤ n && n < 0xDC00 then decode16 bigEndian rest (some n)
      else if 0xDC00 ≤ n && n < 0xE000 then [badMark]
      else unmarkedChar (Char.ofNat n) :: decode16 bigEndian rest none

namespace Encoding

def decode : Encoding → List UInt8 → List Char
  | utf8, bytes => decode8 bytes
  | utf16 big, bytes => decode16 big bytes none
  | latin1, bytes => bytes.map fun b => unmarkedChar (Char.ofNat b.toNat)
  | ascii, bytes =>
    bytes.map fun b => if b < 0x80 then unmarkedChar (Char.ofNat b.toNat) else badMark

def detect : List UInt8 → Encoding
  | 0xFE :: 0xFF :: _ => utf16 true
  | 0xFF :: 0xFE :: _ => utf16 false
  | 0 :: _ :: _ => utf16 true
  | _ :: 0 :: _ => utf16 false
  | _ => utf8

/-- What an encoding is called, in capitals: an encoding of single bytes, or one of pairs in
the given order or in any. -/
inductive Named where
  | single (e : Encoding)
  | pairs (bigEndian : Option Bool)

/-- What a name stands for, without regard to case.  The name of UTF-8 without its hyphen is
not a registered one, and reads ASCII. -/
def ofName? (name : List Char) : Option Named :=
  let names := [
    ("UTF-8", Named.single utf8), ("US-ASCII", .single ascii), ("ASCII", .single ascii),
    ("UTF8", .single ascii), ("ISO-8859-1", .single latin1), ("ISO8859-1", .single latin1),
    ("ISO_8859-1", .single latin1), ("LATIN-1", .single latin1), ("LATIN1", .single latin1),
    ("UTF-16", .pairs none), ("UTF-16BE", .pairs (some true)), ("UTF-16LE", .pairs (some false))]
  names.lookup (String.ofList (name.map Char.toUpper))

/-- What is wrong with a declared encoding for a document that is read in this one. -/
def objection (actual : Encoding) (name : List Char) : Option Problem :=
  match ofName? name, actual with
  | none, _ => some .unknownEncoding
  | some (.single _), utf16 _ => some .wrongEncoding
  | some (.single _), _ => none
  | some (.pairs order), utf16 big => if order = some (!big) then some .wrongEncoding else none
  | some (.pairs _), _ => some .wrongEncoding

end Encoding

def byteOrderMark : Char := Char.ofNat 0xFEFF

/-- A document as characters: its byte-order mark, what follows that, and the encoding of
its bytes where it came as bytes. -/
structure Decoded where
  mark : List Char
  body : List Char
  encoding : Option Encoding

def Decoded.ofChars (encoding : Option Encoding) (cs : List Char) : Decoded :=
  if cs.head? == some byteOrderMark then ⟨[byteOrderMark], cs.drop 1, encoding⟩
  else ⟨[], cs, encoding⟩

def declaredEncoding? (cs : List Char) : Option Encoding :=
  match readOuter cs with
  | .ok (.declaration i, _) =>
    match Declaration.read i.body with
    | .ok { encoding := some (name, _), .. } =>
      match Encoding.ofName? name with
      | some (.single e) => some e
      | _ => none
    | _ => none
  | _ => none

def isFirstByte (bytes : List UInt8) : Bool :=
  [[0x00], [0xFE], [0xFF], [0xEF], [0xEF, 0xBB]].contains bytes

def decodeDocument (bytes : List UInt8) : Decoded :=
  match Encoding.detect bytes with
  | .utf8 =>
    let d := Decoded.ofChars (some .utf8) (decode8 bytes)
    match declaredEncoding? d.body with
    | some .latin1 | some .ascii =>
      let e := (declaredEncoding? d.body).getD .utf8
      -- Here each byte of a mark counts as a character.
      let mark := if d.mark.isEmpty then [] else Encoding.latin1.decode (bytes.take 3)
      ⟨mark, e.decode (bytes.drop mark.length), some e⟩
    | _ => if isFirstByte bytes then ⟨[], [oddMark], some .utf8⟩ else d
  | e => .ofChars (some e) (e.decode bytes)

/-- The characters of a document that came as text.  Zeros at its start make it one of two
bytes a character. -/
def decodeText (s : String) : Decoded :=
  let bytes := s.toUTF8.toList
  match Encoding.detect bytes with
  | .utf16 bigEndian => .ofChars none (decode16 bigEndian bytes none)
  | _ => .ofChars none (if isFirstByte bytes then [oddMark] else unmarked s.toList)

end Markup
end SvgTree
