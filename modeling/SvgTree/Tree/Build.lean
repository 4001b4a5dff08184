/-
Building: new nodes from blueprints, and the adoption of nodes that exist already.

The items of one node are worked off from left to right; the nodes made on the way wait with
their own items, the last one first.  When an item is refused, what was built and adopted
before it stays.

The items are given once and for all.  A list of items that is the list of children of a node
that exists, and so grows shorter while its nodes are adopted, is outside of this, with one
exception: `createOver` makes a node whose items are such a list.
-/
import SvgTree.Tree.Blueprint

namespace SvgTree

structure Pending where
  host : NodeId
  items : List Blueprint

def Pending.load : List Pending → Nat
  | [] => 0
  | p :: rest => 1 + Blueprint.weightAll p.items + load rest

namespace Forest

def leaveParent (f : Forest) (child : NodeId) : Forest :=
  match f.parent? child with
  | none => f
  | some p => f.setChildren p ((f.children p).filter (· != child))

def append (f : Forest) (host child : NodeId) : Forest :=
  (f.setParent child (some host)).modify host fun n =>
    { n with children := n.children ++ [child] }

/-- Moves a node to the end of the children of another, unless that one is in its subtree. -/
def adopt (f : Forest) (host child : NodeId) : Except Fault Forest :=
  if f.isAncestor child host then .error (f.refusal child .adoptCycle)
  else .ok ((f.leaveParent child).append host child)

/-- Keeps a new node under another, of the same class and as the last of its children. -/
def addUnder (f : Forest) (host : NodeId) (fields : Fields) : Forest × NodeId :=
  let n : Node := { toFields := fields, ofClass := (f.node host).ofClass
                    parent := some host, children := [] }
  let (g, id) := f.add n
  (g.modify host fun h => { h with children := h.children ++ [id] }, id)

/-- Works off the items of one node; the nodes made are put on top of what waits. -/
def attachItems (f : Forest) (host : NodeId) :
    List Blueprint → List Pending → Forest × Except Fault (List Pending)
  | [], waiting => (f, .ok waiting)
  | .existing i :: rest, waiting =>
    match f.adopt host i with
    | .error e => (f, .error e)
    | .ok g => g.attachItems host rest waiting
  | .fresh fields items :: rest, waiting =>
    let (g, id) := f.addUnder host fields
    g.attachItems host rest (⟨id, items⟩ :: waiting)
  | .broken e :: _, _ => (f, .error e)

theorem load_attachItems {f g : Forest} {host : NodeId} {items : List Blueprint}
    {waiting left : List Pending} (h : f.attachItems host items waiting = (g, .ok left)) :
    Pending.load left ≤ Blueprint.weightAll items + Pending.load waiting := by
  induction items generalizing f waiting with
  | nil =>
    simp only [attachItems, Prod.mk.injEq, Except.ok.injEq] at h
    simp [h.2, Blueprint.weightAll]
  | cons b rest ih =>
    cases b with
    | existing i =>
      simp only [attachItems] at h
      split at h
      · simp at h
      · have := ih h
        simp only [Blueprint.weightAll, Blueprint.weight]
        omega
    | fresh fields items =>
      simp only [attachItems] at h
      have := ih h
      simp only [Blueprint.weightAll, Blueprint.weight, Pending.load] at this ⊢
      omega
    | broken e => simp [attachItems] at h

def attach (f : Forest) (waiting : List Pending) : Forest × Except Fault Unit :=
  match waiting with
  | [] => (f, .ok ())
  | p :: rest =>
    match _h : f.attachItems p.host p.items rest with
    | (g, .error e) => (g, .error e)
    | (g, .ok left) => g.attach left
termination_by Pending.load waiting
decreasing_by
  have := load_attachItems _h
  simp only [Pending.load]
  omega

/-- A new node with its items under it.  The parent is set as given; the parent's children
are left as they are. -/
def construct (f : Forest) (ofClass : NodeClass) (parent : Option NodeId) (fields : Fields)
    (items : List Blueprint) : Forest × Except Fault NodeId :=
  let (g, id) := f.add { toFields := fields, ofClass, parent, children := [] }
  let (g, done) := g.attach [⟨id, items⟩]
  (g, done.map fun _ => id)

/-- A new tree from the blueprint of a raw one.  The parent is set as given. -/
def realize (f : Forest) (ofClass : NodeClass) (parent : Option NodeId) :
    Blueprint → Forest × Except Fault NodeId
  | .existing _ => (f, .error .wrongOperand)
  | .broken e => (f, .error e)
  | .fresh fields items => f.construct ofClass parent fields items

def ofRawUnder (f : Forest) (ofClass : NodeClass) (parent : Option NodeId) (raw : Value) :
    Forest × Except Fault NodeId :=
  f.realize ofClass parent (.ofValue raw)

def ofRaw (f : Forest) (ofClass : NodeClass) (raw : Value) : Forest × Except Fault NodeId :=
  f.ofRawUnder ofClass none raw

def wrap (f : Forest) (raw : Value) : Forest × Except Fault NodeId :=
  match raw with
  | .null => (f, .error .noTree)
  | .dict _ => f.ofRaw .legacy raw
  | other => (f, .error (.notMapping other))

/-- A new node from values: attributes as a node takes them, and a sequence of items. -/
def create (f : Forest) (ofClass : NodeClass) (parent : Option NodeId)
    (kind name value attributes items : Value) : Forest × Except Fault NodeId :=
  match Attributes.ofInput attributes with
  | .error e => (f, .error e)
  | .ok attributes =>
    f.construct ofClass parent { kind, name, value, attributes } (Blueprint.ofSequence items)

/-- Adopts the children of `source` while their list is read place by place.  Each of them leaves
the list as it is adopted, and the reading goes on at the next place of what is left. -/
def adoptAlong (f : Forest) (host source : NodeId) : Nat → Nat → Forest × Except Fault Unit
  | 0, _ => (f, .ok ())
  | fuel + 1, place =>
    match (f.children source)[place]? with
    | none => (f, .ok ())
    | some i =>
      match f.adopt host i with
      | .error e => (f, .error e)
      | .ok g => g.adoptAlong host source fuel (place + 1)

/-- As `create`, with the list itself that `source` has of its children for items. -/
def createOver (f : Forest) (ofClass : NodeClass) (parent : Option NodeId)
    (kind name value attributes : Value) (source : NodeId) : Forest × Except Fault NodeId :=
  match Attributes.ofInput attributes with
  | .error e => (f, .error e)
  | .ok attributes =>
    let fields : Fields := { kind, name, value, attributes }
    let (g, id) := f.add { toFields := fields, ofClass, parent, children := [] }
    let (g, done) := g.adoptAlong id source (g.children source).length 0
    (g, done.map fun _ => id)

end Forest
end SvgTree
