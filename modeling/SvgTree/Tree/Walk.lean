/-
Walking a tree in document order.

`walk` works with a stack of nodes that are still to come; `preorder` is the same order by
recursion on the children.  `traverse` hands every node to a visitor that may change the
forest: the children of a node are looked up after the visitor has seen it.
-/
import SvgTree.Tree.Forest

namespace SvgTree
namespace Forest

/-- The nodes that come off the stack within `fuel` steps, after those already seen. -/
def walkFrom (f : Forest) : Nat → List NodeId → List NodeId → List NodeId
  | 0, _, seen => seen.reverse
  | _ + 1, [], seen => seen.reverse
  | fuel + 1, i :: stack, seen => f.walkFrom fuel (f.children i ++ stack) (i :: seen)

def walk (f : Forest) (root : NodeId) : List NodeId := f.walkFrom f.size [root] []

/-- A node and the levels below it down to `depth`, each child with all of its own. -/
def preorderFrom (f : Forest) : Nat → NodeId → List NodeId
  | 0, _ => []
  | depth + 1, i => i :: (f.children i).flatMap (f.preorderFrom depth)

def preorder (f : Forest) (root : NodeId) : List NodeId := f.preorderFrom f.size root

structure Visit (α : Type) where
  forest : Forest
  state : α

/-- Hands the nodes of the stack and all below them to the visitor, at most `fuel` of them,
until the stack is empty or the visitor fails. -/
def traverse {α : Type} (visit : NodeId → Visit α → Visit α × Option Fault) :
    Nat → List NodeId → Visit α → Visit α × Option Fault
  | 0, _, v => (v, none)
  | _ + 1, [], v => (v, none)
  | fuel + 1, i :: stack, v =>
    match visit i v with
    | (w, some e) => (w, some e)
    | (w, none) => traverse visit fuel (w.forest.children i ++ stack) w

end Forest
end SvgTree
