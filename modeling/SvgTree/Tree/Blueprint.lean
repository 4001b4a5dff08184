/-
Blueprints: what a raw tree asks for, node by node, before anything is built.

Reading a raw tree needs no forest.  What is wrong with an item is kept as a `broken`
blueprint in its place, so that building notices it when it gets there and not before.

The lists in a raw tree are its own: none of them is the list of children of a node that
exists, which building could change under way.
-/
import SvgTree.Attribute.OfValue
import SvgTree.Tree.Forest

namespace SvgTree

/-- One item to build: a node that exists already, a new node with its items, or a fault. -/
inductive Blueprint where
  | existing (id : NodeId)
  | fresh (fields : Fields) (items : List Blueprint)
  | broken (cause : Fault)

namespace Fields

/-- The attributes of a raw node: under `attributes` as names and values, and only where
that key is missing, under `attrs` as ready attributes. -/
def attributesOf (entries : List (Value × Value)) : Except Fault Attributes :=
  match Value.field? "attributes" entries with
  | some v => Attributes.ofInput v
  | none =>
    match Value.field "attrs" entries with
    | .null => .ok Attributes.empty
    | v => Attributes.ofRecords v

/-- The fields of a raw node.  A kind that does not count is `element`, a name that does not
count is empty. -/
def ofEntries (entries : List (Value × Value)) : Except Fault Fields :=
  match attributesOf entries with
  | .error e => .error e
  | .ok attributes => .ok {
      kind := (Value.field "type" entries).orElse (.text "element")
      name := (Value.field "name" entries).orElse (.text "")
      value := Value.field "value" entries
      attributes }

def attributeValue (m : Attributes) (name : String) : Value :=
  ((m.get? name).map Value.attr).getD .null

/-- The fields of a set of attributes that stands where a raw node should.  It answers
look-ups by name like a mapping, but gives no attributes of its own. -/
def ofAttributes (m : Attributes) : Except Fault Fields :=
  if m.has "attributes" none || m.has "attrs" none then .error .wrongOperand
  else .ok {
      kind := (attributeValue m "type").orElse (.text "element")
      name := (attributeValue m "name").orElse (.text "")
      value := attributeValue m "value"
      attributes := Attributes.empty }

end Fields

namespace Blueprint

def ofFields (fields : Except Fault Fields) (items : List Blueprint) : Blueprint :=
  match fields with
  | .ok fs => .fresh fs items
  | .error e => .broken e

mutual

/-- The blueprint of a raw node, or of a node in its place.  A list of children is taken as it is
when the raw tree is read. -/
def ofValue : Value → Blueprint
  | .node i => .existing i
  | .dict entries => ofFields (Fields.ofEntries entries) (childrenOf entries)
  | .attrs m =>
    let items := if m.has "children" none then [.broken .wrongOperand] else []
    ofFields (Fields.ofAttributes m) items
  | .text _ | .list _ => .broken .noSuchMember
  | _ => .broken .wrongOperand

def childrenOf : List (Value × Value) → List Blueprint
  | [] => []
  | (k, v) :: rest => if k.isText "children" then ofItems v else childrenOf rest

/-- The items that a value stands for; one that does not count stands for none. -/
def ofItems : Value → List Blueprint
  | .list items => ofList items
  | .text s => if s.isEmpty then [] else [.broken .noSuchMember]
  | .dict entries => if entries.isEmpty then [] else [.broken .noSuchMember]
  | v => if v.isTruthy then [.broken .wrongOperand] else []

def ofList : List Value → List Blueprint
  | [] => []
  | v :: rest => ofValue v :: ofList rest

end

/-- The items that a value stands for where it has to hold some, be it none.  A list is taken as
it is before the first of them is built. -/
def ofSequence : Value → List Blueprint
  | .list items => ofItems (.list items)
  | .text s => ofItems (.text s)
  | .dict entries => ofItems (.dict entries)
  | .bytes bs => ofItems (.bytes bs)
  | .attrs m => ofItems (.attrs m)
  | _ => [.broken .wrongOperand]

mutual

def weight : Blueprint → Nat
  | existing _ => 1
  | fresh _ items => 1 + weightAll items
  | broken _ => 1

def weightAll : List Blueprint → Nat
  | [] => 0
  | b :: rest => b.weight + weightAll rest

end
end Blueprint
end SvgTree
