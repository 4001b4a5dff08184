/-
Quoted text: a string or a byte string between quotes, with everything that is not printable
escaped.
-/
import SvgTree.Text.Printable

namespace SvgTree
namespace Text

def hex (width n : Nat) : List Char :=
  let digits := Nat.toDigits 16 n
  List.replicate (width - digits.length) '0' ++ digits

def quoteFor (cs : List Char) : Char :=
  if cs.contains '\'' && !cs.contains '"' then '"' else '\''

def escapeChar (quote c : Char) : List Char :=
  if c == quote || c == '\\' then ['\\', c]
  else if c == '\n' then ['\\', 'n']
  else if c == '\r' then ['\\', 'r']
  else if c == '\t' then ['\\', 't']
  else if isPrintable c then [c]
  else
    let n := c.toNat
    if n < 0x100 then '\\' :: 'x' :: hex 2 n
    else if n < 0x10000 then '\\' :: 'u' :: hex 4 n
    else '\\' :: 'U' :: hex 8 n

def quoted (s : String) : String :=
  let cs := s.toList
  let q := quoteFor cs
  String.ofList (q :: cs.flatMap (escapeChar q) ++ [q])

def escapeByte (quote : Char) (b : UInt8) : List Char :=
  if b < 0x80 then escapeChar quote (Char.ofNat b.toNat)
  else '\\' :: 'x' :: hex 2 b.toNat

def quotedBytes (bytes : List UInt8) : String :=
  let q := quoteFor (bytes.map fun b => Char.ofNat b.toNat)
  String.ofList ('b' :: q :: bytes.flatMap (escapeByte q) ++ [q])

end Text
end SvgTree
