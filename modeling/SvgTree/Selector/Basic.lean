/-
Selectors: a tag, an attribute with its exact value, or several of these side by side.

`cut` finds the commas that part alternatives: those outside double quotes and outside
brackets. Brackets count only outside quotes, and a closing one too many is ignored.  Text
of any other form is kept as unsupported and matches nothing.
-/
import SvgTree.Text.Blank

namespace SvgTree

inductive Simple where
  | tag (name : String)
  | attr (tag : Option String) (name value : String)
  | unsupported (source : String)
  deriving DecidableEq, Inhabited

inductive Selector where
  | one (s : Simple)
  | anyOf (alternatives : List Simple)
  deriving DecidableEq, Inhabited

namespace Simple

def isNameChar (c : Char) : Bool :=
  c.isAlphanum || c == '_' || c == ':' || c == '-'

def isName (cs : List Char) : Bool := !cs.isEmpty && cs.all isNameChar

/-- What stands between the brackets of an attribute selector: a name, and a value in double
quotes without a double quote in it. -/
def readTest (cs : List Char) : Option (String × String) :=
  match cs.span isNameChar with
  | ([], _) => none
  | (name, '=' :: '"' :: rest) =>
    match rest.span (· != '"') with
    | ([], _) => none
    | (value, ['"', ']']) => some (String.ofList name, String.ofList value)
    | _ => none
  | _ => none

def read (cs : List Char) : Simple :=
  if isName cs then .tag (String.ofList cs)
  else
    match cs.span isNameChar with
    | (name, '[' :: rest) =>
      match readTest rest with
      | some (key, value) =>
        .attr (if name.isEmpty then none else some (String.ofList name)) key value
      | none => .unsupported (String.ofList cs)
    | _ => .unsupported (String.ofList cs)

def isSupported : Simple → Bool
  | unsupported _ => false
  | _ => true

end Simple

namespace Selector

/-- Cuts at the commas outside brackets and quotes, `depth` brackets deep and inside quotes
or not. -/
def cut (depth : Nat) (quoted : Bool) : List Char → List Char × List (List Char)
  | [] => ([], [])
  | c :: cs =>
    if c == ',' && depth == 0 && !quoted then
      let (piece, pieces) := cut 0 false cs
      ([], piece :: pieces)
    else
      let deeper := if quoted then depth
        else if c == '[' then depth + 1 else if c == ']' then depth - 1 else depth
      let (piece, pieces) := cut deeper (if c == '"' then !quoted else quoted) cs
      (c :: piece, pieces)

def piecesOf (cs : List Char) : List (List Char) :=
  let (piece, pieces) := cut 0 false cs
  piece :: pieces

def alternativesOf (cs : List Char) : List (List Char) := (piecesOf cs).map Text.stripChars

def splitAlternatives (source : String) : List String :=
  (alternativesOf source.toList).map String.ofList

def ofPieces : List (List Char) → Selector
  | [piece] => .one (Simple.read piece)
  | pieces => .anyOf (pieces.map Simple.read)

def parse (source : String) : Selector :=
  ofPieces (alternativesOf (Text.stripChars source.toList))

def alternatives : Selector → List Simple
  | one s => [s]
  | anyOf l => l

def unsupportedParts (s : Selector) : List String :=
  s.alternatives.filterMap fun
    | .unsupported source => some source
    | _ => none

def isSupported (s : Selector) : Bool := s.alternatives.any (·.isSupported)

end Selector
end SvgTree
