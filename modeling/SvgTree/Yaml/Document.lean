/-
Documents: the one value that a text holds.

A text is read to its end before any value is made, so that what is wrong with the text
comes before what is wrong with a value.  Of several values that are wrong the outermost
counts, and among equals the first.
-/
import SvgTree.Yaml.Node

namespace SvgTree
namespace Yaml

/-! ## From tokens to a node -/

/-- Reads the directives before a document: one version at most, which has to be the first,
and each handle once. -/
def readDirectives : List Token → Bool → Handles → Except Fault (Handles × List Token)
  | .directive d :: rest, versioned, handles =>
    match d with
    | .version major =>
      if versioned || major != 1 then .error .notYaml else readDirectives rest true handles
    | .handle name text =>
      if (handles.lookup name).isSome then .error .notYaml
      else readDirectives rest versioned ((name, text) :: handles)
    | .other => readDirectives rest versioned handles
  | tokens, _, handles => .ok (handles ++ .common, tokens)

def endsDocument : List Token → Bool
  | [] | .directive _ :: _ | .documentStart :: _ | .documentEnd :: _ => true
  | _ => false

def isOver (tokens : List Token) : Bool := tokens.all fun
  | .documentEnd => true
  | _ => false

/-- How many steps reading these tokens can take. -/
def fuelFor (tokens : List Token) : Nat := 4 * tokens.length + 4

def Node.ofTokens (tokens : List Token) : Except Fault Node :=
  let content (handles : Handles) (tokens : List Token) : Except Fault Node :=
    (readNode (fuelFor tokens) .block { tokens, handles }).bind fun (n, s) =>
      if isOver s.tokens then .ok n else .error .notYaml
  match tokens with
  | [] => .ok .missing
  | .directive _ :: _ | .documentStart :: _ =>
    match readDirectives tokens false [] with
    | .error e => .error e
    | .ok (handles, .documentStart :: rest) =>
      if !endsDocument rest then content handles rest
      else if isOver rest then .ok .missing
      else .error .notYaml
    | .ok _ => .error .notYaml
  | tokens => content .common tokens

/-! ## From a node to a value -/

/-- What is wrong, and how deep inside the document. -/
abbrev Deep (α : Type) := Except (Nat × Fault) α

/-- Two results as one; of two faults the outer counts, and the first of equals. -/
def Deep.both {α β γ : Type} (join : α → β → γ) : Deep α → Deep β → Deep γ
  | .ok a, .ok b => .ok (join a b)
  | .ok _, .error e => .error e
  | .error e, .ok _ => .error e
  | .error (m, e), .error (n, f) => .error (if n < m then (n, f) else (m, e))

mutual

/-- The value of a node at a depth.  A collection is there before what it holds. -/
def Node.value (depth : Nat) : Node → Deep Value
  | .scalar kind text => (kind.value text).mapError fun e => (depth, e)
  | .sequence kind items =>
    if kind == .list then (itemValues (depth + 1) items).map .list else .error (depth, .notYaml)
  | .mapping kind entries =>
    if kind == .dict then
      (entryValues (depth + 1) entries).map fun es =>
        .dict (es.foldl (fun acc e => Value.putEntry e.1 e.2 acc) [])
    else .error (depth, .notYaml)

def itemValues (depth : Nat) : List Node → Deep (List Value)
  | [] => .ok []
  | n :: rest => (Node.value depth n).both (· :: ·) (itemValues depth rest)

/-- Keys with their values.  A list or a mapping is no key. -/
def entryValues (depth : Nat) : List (Node × Node) → Deep (List (Value × Value))
  | [] => .ok []
  | (k, v) :: rest =>
    let key := match k with
      | .scalar _ _ => Node.value depth k
      | _ => .error (depth, .notYaml)
    ((Deep.both Prod.mk key (Node.value depth v))).both (· :: ·) (entryValues depth rest)

end

/-! ## From text to a value -/

/-- Whether a text may hold the character: no controls but tab, line feed, carriage return
and next line, and no surrogates or non-characters. -/
def isAllowed (c : Char) : Bool :=
  let n := c.toNat
  n == 0x09 || n == 0x0A || n == 0x0D || (0x20 ≤ n && n ≤ 0x7E) || n == 0x85 ||
    (0xA0 ≤ n && n ≤ 0xFFFD) || 0x10000 ≤ n

def valueOf (cs : List Char) : Except Fault Value :=
  if !cs.all isAllowed then .error .notYaml
  else
    match tokens cs with
    | .error e => .error e
    | .ok ts =>
      match Node.ofTokens ts with
      | .error e => .error e
      | .ok n => (n.value 0).mapError (·.2)

end Yaml
end SvgTree
