/-
Matching nodes against selectors, and the nodes of a tree that match.
-/
import SvgTree.Selector.Basic
import SvgTree.Tree.Walk

namespace SvgTree

namespace Simple

def accepts (n : Fields) : Simple → Bool
  | .tag name => n.isElement && n.name.isText name
  | .attr only name value =>
    n.isElement && (only.map fun t => n.name.isText t).getD true &&
      n.attributes.has name (some value)
  | .unsupported _ => false

end Simple

namespace Selector

def accepts (s : Selector) (n : Fields) : Bool := s.alternatives.any (Simple.accepts n)

/-- Whether the selector matches the node.  To tell an element, the kind of the node has to
be looked up, which fails for a list or a mapping; a selector that nothing can match looks
nothing up. -/
def test (s : Selector) (n : Fields) : Except Fault Bool :=
  if s.isSupported && !n.kind.isHashable then .error (.unhashable n.kind) else .ok (s.accepts n)

end Selector

namespace Forest

def matching (f : Forest) (s : Selector) : List NodeId → Except Fault (List NodeId)
  | [] => .ok []
  | i :: rest =>
    match s.test (f.node i).toFields with
    | .error e => .error e
    | .ok found =>
      match f.matching s rest with
      | .error e => .error e
      | .ok others => .ok (if found then i :: others else others)

def firstMatching (f : Forest) (s : Selector) : List NodeId → Except Fault (Option NodeId)
  | [] => .ok none
  | i :: rest =>
    match s.test (f.node i).toFields with
    | .error e => .error e
    | .ok true => .ok (some i)
    | .ok false => f.firstMatching s rest

def queryAll (f : Forest) (root : NodeId) (s : Selector) : Except Fault (List NodeId) :=
  f.matching s (f.walk root)

def query (f : Forest) (root : NodeId) (s : Selector) : Except Fault (Option NodeId) :=
  f.firstMatching s (f.walk root)

end Forest
end SvgTree
