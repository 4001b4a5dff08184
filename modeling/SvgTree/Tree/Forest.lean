/-
Forests: nodes kept under numbers, each with the list of its children and a link to its
parent.

A forest holds every node that was ever made; a node that was cut out of its tree stays,
without a parent.  `lineage` is the chain of parents from a node up, the node itself first.
-/
import SvgTree.Fault

namespace SvgTree

/-- The two classes of nodes: legacy nodes also know their place among their siblings and can be
detached. -/
inductive NodeClass where
  | plain
  | legacy
  deriving DecidableEq, Inhabited

def NodeClass.name : NodeClass → String
  | .plain => "Node"
  | .legacy => "LegacyNode"

structure Fields where
  kind : Value
  name : Value
  value : Value
  attributes : Attributes
  deriving Inhabited

structure Node extends Fields where
  ofClass : NodeClass
  parent : Option NodeId
  children : List NodeId
  deriving Inhabited

namespace Fields

/-- Whether the node can hold elements: its kind is `element` or `root`. -/
def isContainer (n : Fields) : Bool := n.kind.isText "element" || n.kind.isText "root"

/-- Whether selectors can match the node: an element, or a root that has a name. -/
def isElement (n : Fields) : Bool :=
  n.kind.isText "element" || (n.kind.isText "root" && n.name.isTruthy)

def shown (n : Fields) : Value := if n.isElement then n.name else n.kind

end Fields

structure Forest where
  nodes : Array Node
  deriving Inhabited

namespace Forest

def empty : Forest := ⟨#[]⟩

def size (f : Forest) : Nat := f.nodes.size

def node? (f : Forest) (i : NodeId) : Option Node := f.nodes[i]?

def node (f : Forest) (i : NodeId) : Node := (f.node? i).getD default

def parent? (f : Forest) (i : NodeId) : Option NodeId := (f.node? i).bind (·.parent)

def children (f : Forest) (i : NodeId) : List NodeId := ((f.node? i).map (·.children)).getD []

def modify (f : Forest) (i : NodeId) (g : Node → Node) : Forest := ⟨f.nodes.modify i g⟩

def setParent (f : Forest) (i : NodeId) (parent : Option NodeId) : Forest :=
  f.modify i fun n => { n with parent }

def setChildren (f : Forest) (i : NodeId) (children : List NodeId) : Forest :=
  f.modify i fun n => { n with children }

def setName (f : Forest) (i : NodeId) (name : Value) : Forest :=
  f.modify i fun n => { n with name }

def setAttributes (f : Forest) (i : NodeId) (attributes : Attributes) : Forest :=
  f.modify i fun n => { n with attributes }

def add (f : Forest) (n : Node) : Forest × NodeId := (⟨f.nodes.push n⟩, f.nodes.size)

/-- At most `fuel` nodes of the chain of parents. -/
def lineageFrom (f : Forest) : Nat → NodeId → List NodeId
  | 0, _ => []
  | fuel + 1, i =>
    i :: match f.parent? i with
      | none => []
      | some p => lineageFrom f fuel p

/-- The node, its parent, and so on up.  No chain without a cycle has more nodes than the
forest. -/
def lineage (f : Forest) (i : NodeId) : List NodeId := f.lineageFrom f.size i

def isAncestor (f : Forest) (a i : NodeId) : Bool := (f.lineage i).contains a

/-- A node in short: an element by its name and the number of its attributes, all else by
its kind.  Nodes that stand in a name or a kind are described in their turn, down to `depth`
levels.  `above` are the nodes whose text is being made: a list or a mapping that comes up
again inside its own text is not opened. -/
def describeFrom (f : Forest) : Nat → List NodeId → NodeId → String
  | 0, _, _ => ""
  | depth + 1, above, i =>
    let n := f.node i
    let names : NodeNames :=
      ⟨fun j => (f.node j).ofClass.name, f.describeFrom depth (i :: above)⟩
    let text := if !n.shown.isHashable && above.contains i then n.shown.elided
      else n.shown.display names
    if n.isElement then
      "<" ++ n.ofClass.name ++ " " ++ text ++ " attrs=" ++ toString n.attributes.size ++ ">"
    else "<" ++ n.ofClass.name ++ " " ++ text ++ ">"

/-- Enough for every text that ends.  Between two nodes that are shown by a list or a mapping
no node comes twice, and there are no more of these than nodes. -/
def textDepth (f : Forest) : Nat := f.size * (f.size + 2) + 1

def describe (f : Forest) (i : NodeId) : String := f.describeFrom f.textDepth [] i

def names (f : Forest) : NodeNames := ⟨fun i => (f.node i).ofClass.name, f.describe⟩

/-- What keeps a node from being described: a kind that is a list or a mapping, for it cannot be
looked up, a node inside what is shown that cannot be described, or a text without an end. -/
def obstacleFrom (f : Forest) : Nat → List NodeId → NodeId → Option Fault
  | 0, _, _ => some .endlessText
  | depth + 1, above, i =>
    let n := f.node i
    if !n.kind.isHashable then some (.unhashable n.kind)
    else if !n.shown.isHashable && above.contains i then none
    else n.shown.nodes.findSome? (f.obstacleFrom depth (i :: above))

def obstacle (f : Forest) (i : NodeId) : Option Fault := f.obstacleFrom f.textDepth [] i

/-- A refusal that describes a node.  Where the node cannot be described, the attempt is what
fails. -/
def refusal (f : Forest) (i : NodeId) (cause : NodeId → Fault) : Fault :=
  (f.obstacle i).getD (cause i)

theorem obstacle_eq (f : Forest) (i : NodeId) :
    f.obstacle i = if !(f.node i).kind.isHashable then some (.unhashable (f.node i).kind)
      else (f.node i).shown.nodes.findSome? (f.obstacleFrom (f.size * (f.size + 2)) [i]) := by
  rw [obstacle, textDepth, obstacleFrom]
  simp only [List.contains_nil, Bool.and_false, Bool.false_eq_true, if_false]

/-- An element shows its name, and here that is a node whose kind is a list. -/
example : obstacle ⟨#[
    { kind := .text "element", name := .node 1, value := .null, attributes := .empty
      ofClass := .legacy, parent := none, children := [] },
    { kind := .list [], name := .text "", value := .null, attributes := .empty
      ofClass := .legacy, parent := none, children := [] }]⟩ 0 = some (.unhashable (.list [])) := by
  rfl

/-- Nothing stands in the way where kind and name are texts. -/
theorem obstacle_of_texts {f : Forest} {i : NodeId} (hkind : ∃ s, (f.node i).kind = .text s)
    (hname : ∃ s, (f.node i).name = .text s) : f.obstacle i = none := by
  have hshown : ∃ s, (f.node i).shown = .text s := by
    unfold Fields.shown
    split
    · exact hname
    · exact hkind
  obtain ⟨s, hs⟩ := hshown
  rw [obstacle_eq, Value.isHashable_of_text hkind, hs]
  rfl

end Forest
end SvgTree
