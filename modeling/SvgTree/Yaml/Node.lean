/-
Nodes of a document: scalars, sequences and mappings.

A node may have an anchor, and stands again wherever a reference has that name.  Among the
tokens only the collections opened by indentation may be left open by others, so that
reading follows the tokens from left to right without a step back.
-/
import SvgTree.Yaml.Kind
import SvgTree.Yaml.Token

namespace SvgTree
namespace Yaml

inductive Node where
  | scalar (kind : Kind) (text : List Char)
  | sequence (kind : Kind) (items : List Node)
  | mapping (kind : Kind) (entries : List (Node × Node))

namespace Node

def missing : Node := scalar .plain []

def isPlain (text : List Char) : Node → Bool
  | scalar .plain cs => cs == text
  | _ => false

def entries? : Node → Option (List (Node × Node))
  | mapping _ entries => some entries
  | _ => none

/-- The entries that a value brings into a mapping: those of a mapping, or of a list of
mappings, the last one first. -/
def merged? : Node → Option (List (Node × Node))
  | sequence _ items => (items.mapM entries?).map fun lists => lists.reverse.flatten
  | other => other.entries?

/-- The entries that others bring into a mapping, before its own.  A key that stands for the
value of the mapping is text there. -/
def mergedEntries : List (Node × Node) → Option (List (Node × Node) × List (Node × Node))
  | [] => some ([], [])
  | (key, value) :: rest => do
    let (taken, own) ← mergedEntries rest
    if key.isPlain mergeMark then return ((← value.merged?) ++ taken, own)
    else if key.isPlain valueMark then return (taken, (scalar .text valueMark, value) :: own)
    else return (taken, (key, value) :: own)

/-- A mapping with its entries as they are written. -/
def ofEntries (kind : Kind) (entries : List (Node × Node)) : Except Fault Node :=
  match mergedEntries entries with
  | some (taken, own) => .ok (mapping kind (taken ++ own))
  | none => .error .notYaml

end Node

abbrev Handles := List (String × String)

def Handles.common : Handles := [("!", "!"), ("!!", "tag:yaml.org,2002:")]

/-- The tokens that are left, and the nodes with anchors, without a node where it is not
read to its end. -/
structure Supply where
  tokens : List Token
  anchors : List (String × Option Node) := []
  handles : Handles

abbrev Taken (α : Type) := Except Fault (α × Supply)

/-- Where a node stands.  In a value, entries may begin at the indent of their key. -/
inductive Place where
  | block
  | value
  | flow
  deriving DecidableEq

structure Properties where
  anchor : Option String := none
  tag : Option Tag := none

namespace Supply

def drop (tokens : List Token) (s : Supply) : Supply := { s with tokens }

def properties (s : Supply) : Properties × Supply :=
  match s.tokens with
  | .anchor a :: .tag t :: rest => (⟨some a, some t⟩, s.drop rest)
  | .tag t :: .anchor a :: rest => (⟨some a, some t⟩, s.drop rest)
  | .anchor a :: rest => (⟨some a, none⟩, s.drop rest)
  | .tag t :: rest => (⟨none, some t⟩, s.drop rest)
  | _ => ({}, s)

def tagText (s : Supply) (t : Tag) : Except Fault String :=
  match t.handle with
  | none => .ok t.suffix
  | some h =>
    match s.handles.lookup h with
    | some start => .ok (start ++ t.suffix)
    | none => .error .notYaml

/-- The kind of a node by its tag; a lone mark leaves it as it would be. -/
def kindOf (s : Supply) (usual : Kind) (bare : Kind) : Option Tag → Except Fault Kind
  | none => .ok usual
  | some t => (s.tagText t).map fun text => if text == "!" then bare else .ofTag text

end Supply

def endsEntry : List Token → Bool
  | .entry :: _ | .close :: _ => true
  | _ => false

def endsPart : List Token → Bool
  | .key :: _ | .value :: _ | .close :: _ => true
  | _ => false

def endsBracketPart : List Token → Bool
  | .comma :: _ | .bracketClose :: _ => true
  | _ => false

def endsBracePart : List Token → Bool
  | .comma :: _ | .braceClose :: _ => true
  | _ => false

def isValue : List Token → Bool
  | .value :: _ => true
  | _ => false

mutual

def readNode : Nat → Place → Supply → Taken Node
  | 0, _, _ => .error .notYaml
  | fuel + 1, place, s =>
    match s.tokens with
    | .reference name :: rest =>
      match s.anchors.lookup name with
      | none => .error .notYaml
      | some n => .ok (n.getD .missing, s.drop rest)
    | _ =>
      let (p, s) := s.properties
      match p.anchor with
      | none => readContent fuel place p s
      | some name =>
        if (s.anchors.lookup name).isSome then .error .notYaml
        else
          match readContent fuel place p { s with anchors := (name, none) :: s.anchors } with
          | .error e => .error e
          | .ok (n, s) => .ok (n, { s with anchors := (name, some n) :: s.anchors })

/-- Reads a node after its properties.  A node that is all properties is empty. -/
def readContent : Nat → Place → Properties → Supply → Taken Node
  | 0, _, _, _ => .error .notYaml
  | fuel + 1, place, p, s =>
    match s.tokens with
    | .scalar plain text :: rest =>
      (s.kindOf (if plain then .plain else .text) .plain p.tag).map fun kind =>
        (.scalar kind text, s.drop rest)
    | .bracketOpen :: rest =>
      match s.kindOf .list .list p.tag with
      | .error e => .error e
      | .ok kind =>
        (readBracket fuel true (s.drop rest)).map fun (items, s) => (.sequence kind items, s)
    | .braceOpen :: rest =>
      match s.kindOf .dict .dict p.tag with
      | .error e => .error e
      | .ok kind => (readBrace fuel true (s.drop rest)).bind fun (entries, s) =>
          (Node.ofEntries kind entries).map fun n => (n, s)
    | tokens =>
      match place, tokens with
      | .value, .entry :: _ =>
        match s.kindOf .list .list p.tag with
        | .error e => .error e
        | .ok kind => (readDashes fuel s).map fun (items, s) => (.sequence kind items, s)
      | .block, .sequenceOpen :: rest | .value, .sequenceOpen :: rest =>
        match s.kindOf .list .list p.tag with
        | .error e => .error e
        | .ok kind =>
          (readEntries fuel (s.drop rest)).map fun (items, s) => (.sequence kind items, s)
      | .block, .mappingOpen :: rest | .value, .mappingOpen :: rest =>
        match s.kindOf .dict .dict p.tag with
        | .error e => .error e
        | .ok kind => (readPairs fuel (s.drop rest)).bind fun (entries, s) =>
            (Node.ofEntries kind entries).map fun n => (n, s)
      | _, _ =>
        if p.anchor.isSome || p.tag.isSome then
          (s.kindOf .plain .plain p.tag).map fun kind => (.scalar kind [], s)
        else .error .notYaml

/-- Reads a node, unless the tokens end the part that it would be. -/
def readPart : Nat → Place → (List Token → Bool) → Supply → Taken Node
  | 0, _, _, _ => .error .notYaml
  | fuel + 1, place, ends, s => if ends s.tokens then .ok (.missing, s) else readNode fuel place s

def readValue : Nat → Place → (List Token → Bool) → Supply → Taken Node
  | 0, _, _, _ => .error .notYaml
  | fuel + 1, place, ends, s =>
    match s.tokens with
    | .value :: rest => readPart fuel place ends (s.drop rest)
    | _ => .ok (.missing, s)

def readPair :
    Nat → Place → (List Token → Bool) → (List Token → Bool) → Supply → Taken (Node × Node)
  | 0, _, _, _, _ => .error .notYaml
  | fuel + 1, place, endsKey, endsValue, s =>
    match readPart fuel place endsKey s with
    | .error e => .error e
    | .ok (k, s) => (readValue fuel place endsValue s).map fun (v, s) => ((k, v), s)

def readEntries : Nat → Supply → Taken (List Node)
  | 0, _ => .error .notYaml
  | fuel + 1, s =>
    match s.tokens with
    | .close :: rest => .ok ([], s.drop rest)
    | .entry :: rest =>
      match readPart fuel .block endsEntry (s.drop rest) with
      | .error e => .error e
      | .ok (n, s) => (readEntries fuel s).map fun (items, s) => (n :: items, s)
    | _ => .error .notYaml

def readDashes : Nat → Supply → Taken (List Node)
  | 0, _ => .error .notYaml
  | fuel + 1, s =>
    match s.tokens with
    | .entry :: rest =>
      match readPart fuel .block (fun ts => endsEntry ts || endsPart ts) (s.drop rest) with
      | .error e => .error e
      | .ok (n, s) => (readDashes fuel s).map fun (items, s) => (n :: items, s)
    | _ => .ok ([], s)

def readPairs : Nat → Supply → Taken (List (Node × Node))
  | 0, _ => .error .notYaml
  | fuel + 1, s =>
    match s.tokens with
    | .close :: rest => .ok ([], s.drop rest)
    | .key :: rest =>
      match readPair fuel .value endsPart endsPart (s.drop rest) with
      | .error e => .error e
      | .ok (e, s) => (readPairs fuel s).map fun (entries, s) => (e :: entries, s)
    | _ => .error .notYaml

/-- Reads the items between square brackets.  A key among them makes a mapping of its own. -/
def readBracket : Nat → Bool → Supply → Taken (List Node)
  | 0, _, _ => .error .notYaml
  | fuel + 1, first, s =>
    match first, s.tokens with
    | _, .bracketClose :: rest => .ok ([], s.drop rest)
    | false, .comma :: .bracketClose :: rest => .ok ([], s.drop rest)
    | false, .comma :: rest => readBracketItem fuel (s.drop rest)
    | false, _ => .error .notYaml
    | true, _ => readBracketItem fuel s

def readBracketItem : Nat → Supply → Taken (List Node)
  | 0, _ => .error .notYaml
  | fuel + 1, s =>
    let item : Taken Node := match s.tokens with
      | .key :: rest =>
        (readPair fuel .flow (fun ts => isValue ts || endsBracketPart ts) endsBracketPart
          (s.drop rest)).bind fun (e, s) => (Node.ofEntries .dict [e]).map fun n => (n, s)
      | _ => readNode fuel .flow s
    match item with
    | .error e => .error e
    | .ok (n, s) => (readBracket fuel false s).map fun (items, s) => (n :: items, s)

def readBrace : Nat → Bool → Supply → Taken (List (Node × Node))
  | 0, _, _ => .error .notYaml
  | fuel + 1, first, s =>
    match first, s.tokens with
    | _, .braceClose :: rest => .ok ([], s.drop rest)
    | false, .comma :: .braceClose :: rest => .ok ([], s.drop rest)
    | false, .comma :: rest => readBraceItem fuel (s.drop rest)
    | false, _ => .error .notYaml
    | true, _ => readBraceItem fuel s

/-- Reads an entry between braces, and those after it.  A node without a mark is a key without a
value. -/
def readBraceItem : Nat → Supply → Taken (List (Node × Node))
  | 0, _ => .error .notYaml
  | fuel + 1, s =>
    let entry : Taken (Node × Node) := match s.tokens with
      | .key :: rest =>
        readPair fuel .flow (fun ts => isValue ts || endsBracePart ts) endsBracePart (s.drop rest)
      | _ => (readNode fuel .flow s).map fun (k, s) => ((k, .missing), s)
    match entry with
    | .error e => .error e
    | .ok (e, s) => (readBrace fuel false s).map fun (entries, s) => (e :: entries, s)

end

end Yaml
end SvgTree
