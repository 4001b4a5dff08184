/-
Export: the raw tree of a node and all below it.

Elements and roots have their name unless it is empty, their attributes, and a list of
children; every other node has its kind, and its children only where there are some.  A
value is there unless it is null.

The raw nodes are drafted under numbers, and nodes wait on a stack for their drafts to be
filled, so that no tree is too deep.
-/
import SvgTree.Tree.Forest

namespace SvgTree

namespace Attributes

def toDict (m : Attributes) : Value :=
  .dict (m.entries.map fun a => (.text a.name, .text a.value))

end Attributes

namespace Fields

def exported (n : Fields) (children : List Value) : Value :=
  let name := if n.isContainer && n.name.isTruthy then [(Value.text "name", n.name)] else []
  let attributes :=
    if n.isContainer then [(Value.text "attributes", n.attributes.toDict)] else []
  let value := match n.value with
    | .null => []
    | v => [(Value.text "value", v)]
  let items := if n.isContainer || !children.isEmpty then
    [(Value.text "children", Value.list children)] else []
  .dict ((.text "type", n.kind) :: (name ++ attributes ++ value ++ items))

end Fields

/-- A raw node that is being made: what the node holds at once, its items bit by bit, by the
numbers of their drafts. -/
structure RawDraft where
  fields : Fields
  items : Array Nat

/-- A node whose draft has no items yet. -/
structure Unfilled where
  node : NodeId
  draft : Nat

/-- The draft of a node, without items.  The kind of the node has to be looked up for it. -/
def Forest.draft (f : Forest) (i : NodeId) : Except Fault RawDraft :=
  let n := f.node i
  if n.kind.isHashable then .ok ⟨n.toFields, #[]⟩ else .error .wrongOperand

namespace RawDraft

def add (d : RawDraft) (item : Nat) : RawDraft := { d with items := d.items.push item }

/-- Drafts children as items of the draft `host`, from left to right.  They are put on top of
what waits, one over the other. -/
def putChildren (f : Forest) (drafts : Array RawDraft) (host : Nat) :
    List NodeId → List Unfilled → Except Fault (Array RawDraft × List Unfilled)
  | [], waiting => .ok (drafts, waiting)
  | c :: rest, waiting =>
    match f.draft c with
    | .error e => .error e
    | .ok d =>
      let id := drafts.size
      putChildren f ((drafts.push d).modify host (·.add id)) host rest (⟨c, id⟩ :: waiting)

/-- Fills the drafts of the nodes that wait, from the top down and at most `fuel` of them. -/
def fill (f : Forest) : Nat → Array RawDraft → List Unfilled → Except Fault (Array RawDraft)
  | 0, drafts, _ => .ok drafts
  | _ + 1, drafts, [] => .ok drafts
  | fuel + 1, drafts, w :: rest =>
    match putChildren f drafts w.draft (f.children w.node) rest with
    | .error e => .error e
    | .ok (filled, left) => fill f fuel filled left

def rawFrom (drafts : Array RawDraft) : Nat → Nat → Value
  | 0, _ => .null
  | depth + 1, id =>
    match drafts[id]? with
    | none => .null
    | some d => d.fields.exported (d.items.toList.map (rawFrom drafts depth))

end RawDraft

/-- The raw tree of a node.  In a forest without a cycle there is no more to fill than there are
nodes, and no branch is longer. -/
def Forest.toRaw (f : Forest) (i : NodeId) : Except Fault Value :=
  match f.draft i with
  | .error e => .error e
  | .ok d =>
    (RawDraft.fill f f.size #[d] [⟨i, 0⟩]).map fun drafts => RawDraft.rawFrom drafts f.size 0

end SvgTree
