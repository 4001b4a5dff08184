/-
JSON text of values, laid out with one entry to a line.
-/
import SvgTree.Value.Display

namespace SvgTree
namespace Json

/-- One character between quotes.  Only what JSON forbids there is escaped. -/
def escape (c : Char) : List Char :=
  if c == '"' || c == '\\' then ['\\', c]
  else if c == '\n' then ['\\', 'n']
  else if c == '\r' then ['\\', 'r']
  else if c == '\t' then ['\\', 't']
  else if c == Char.ofNat 8 then ['\\', 'b']
  else if c == Char.ofNat 12 then ['\\', 'f']
  else if c.toNat < 0x20 then '\\' :: 'u' :: Text.hex 4 c.toNat
  else [c]

def quoted (s : String) : String := String.ofList ('"' :: s.toList.flatMap escape ++ ['"'])

def number : Binary64 → String
  | .nan => "NaN"
  | .infinite s => if s then "-Infinity" else "Infinity"
  | x => x.text

def block (depth : Nat) (opening closing : String) (entries : List String) : String :=
  let line := fun (n : Nat) => "\n" ++ String.ofList (List.replicate (2 * n) ' ')
  if entries.isEmpty then opening ++ closing
  else
    opening ++ line depth ++ ("," ++ line depth).intercalate entries ++ line (depth - 1) ++
      closing

mutual

def text (depth : Nat) : Value → String
  | .null => "null"
  | .bool b => if b then "true" else "false"
  | .int n => toString n
  | .float x => number x
  | .text s => quoted s
  | .list items => block (depth + 1) "[" "]" (texts (depth + 1) items)
  | .dict entries => block (depth + 1) "\x7b" "\x7d" (members (depth + 1) entries)
  | v => quoted (v.display .none)

def texts (depth : Nat) : List Value → List String
  | [] => []
  | v :: rest => text depth v :: texts depth rest

def members (depth : Nat) : List (Value × Value) → List String
  | [] => []
  | (k, v) :: rest => (quoted (k.display .none) ++ ": " ++ text depth v) :: members depth rest

end
end Json
end SvgTree
