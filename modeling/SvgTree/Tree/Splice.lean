/-
Splicing: a run of children is taken out and other nodes are put in its place.

The items to put in are read and built first, then checked, and only then are the children
touched.  A node that is put in leaves its former parent; a node taken out has no parent
afterwards, unless it is put in again.
-/
import SvgTree.Tree.Build

namespace SvgTree

namespace Blueprint

/-- The items that an element of a list of insertions stands for: null for none, a node or a
raw node for itself. -/
def ofNested (host : Value) : Value → List Blueprint
  | .null => []
  | .node i => [.existing i]
  | .dict entries => [.ofValue (.dict entries)]
  | other => [.broken (.notInsertable other host)]

/-- The items that an insertion stands for: as for an element, or a list of elements. -/
def ofElement (host : Value) : Value → List Blueprint
  | .list items => items.flatMap (ofNested host)
  | .attrs m => m.entries.flatMap fun a => ofNested host (.attr a)
  | other => ofNested host other

/-- The items that insertions stand for, lists of elements laid out flat. -/
def ofInsertions (host : Value) : Value → List Blueprint
  | .list items => items.flatMap (ofElement host)
  | .attrs m => m.entries.flatMap fun a => ofElement host (.attr a)
  | other => ofNested host other

end Blueprint

namespace Value

/-- Where in a list of `len` children a start lies.  A negative start counts from the end,
and one beyond either end means that end.  A fraction can be no place, but it can lie beyond
an end. -/
def startIndex (len : Nat) : Number → Except Fault Nat
  | .whole n => .ok (min (if n < 0 then (len + n).toNat else n.toNat) len)
  | .real x =>
    let fromEnd := (Binary64.ofInt len).add x
    if x.compareInt 0 == some .lt then
      if fromEnd.compareInt 0 == some .lt then .ok 0 else .error .wrongOperand
    else if x.compareInt len == some .gt then .ok len
    else .error .wrongOperand

/-- Where a run of so many children from `start` on ends. -/
def endIndex (len start : Nat) : Number → Except Fault Nat
  | .whole n => .ok (min (start + n.toNat) len)
  | .real x =>
    if ((Binary64.ofInt start).add x).compareInt len == some .gt then .ok len
    else .error .wrongOperand

def Number.isNegative : Number → Bool
  | whole n => n < 0
  | real x => x.compareInt 0 == some .lt

end Value

namespace Forest

/-- Builds the items one after the other and gives the nodes. -/
def realizeAll (f : Forest) (ofClass : NodeClass) :
    List Blueprint → List NodeId → Forest × Except Fault (List NodeId)
  | [], done => (f, .ok done.reverse)
  | .existing i :: rest, done => f.realizeAll ofClass rest (i :: done)
  | b :: rest, done =>
    match f.realize ofClass none b with
    | (g, .error e) => (g, .error e)
    | (g, .ok i) => g.realizeAll ofClass rest (i :: done)

/-- What forbids to put the nodes under `host`: one of them comes twice, or has `host` in its
subtree. -/
def objection (f : Forest) (host : NodeId) : List NodeId → List NodeId → Option Fault
  | [], _ => none
  | i :: rest, seen =>
    if seen.contains i then some (f.refusal i .insertedTwice)
    else if f.isAncestor i host then some (f.refusal i .insertCycle)
    else f.objection host rest (i :: seen)

def leaveOther (f : Forest) (host i : NodeId) : Forest :=
  if f.parent? i = some host then f else f.leaveParent i

/-- Puts `items` in the place of the children of `host` from `start` up to `stop`, and gives the
children that were taken out and not put in again. -/
def exchange (f : Forest) (host : NodeId) (start stop : Nat) (items : List NodeId) :
    Forest × List NodeId :=
  let old := f.children host
  let stays := fun i => !items.contains i
  let removed := ((old.drop start).take (stop - start)).filter stays
  let now := (old.take start).filter stays ++ items ++ (old.drop stop).filter stays
  let f := items.foldl (fun f i => f.leaveOther host i) f
  let f := f.setChildren host now
  let f := items.foldl (fun f i => f.setParent i (some host)) f
  (removed.foldl (fun f i => f.setParent i none) f, removed)

/-- Replaces `count` children of `host` from `start` on by the insertions, and gives the
nodes that were taken out. -/
def splice (f : Forest) (host : NodeId) (start count insertions : Value) :
    Forest × Except Fault (List NodeId) :=
  match count.number? with
  | none => (f, .error .wrongOperand)
  | some amount =>
    if amount.isNegative then (f, .error (.negativeCount count))
    else
      let items := Blueprint.ofInsertions (f.node host).name insertions
      match f.realizeAll (f.node host).ofClass items [] with
      | (g, .error e) => (g, .error e)
      | (g, .ok nodes) =>
        match g.objection host nodes [] with
        | some e => (g, .error e)
        | none =>
          let len := (g.children host).length
          match start.number? with
          | none => (g, .error .wrongOperand)
          | some place =>
            match Value.startIndex len place with
            | .error e => (g, .error e)
            | .ok first =>
              match Value.endIndex len first amount with
              | .error e => (g, .error e)
              | .ok last =>
                let (h, removed) := g.exchange host first last nodes
                (h, .ok removed)

def indexInParent? (f : Forest) (i : NodeId) : Option Nat :=
  (f.parent? i).bind fun p => (f.children p).idxOf? i

/-- Takes a node out of its tree.  A node that its parent does not hold is left as it is. -/
def cut (f : Forest) (i : NodeId) : Forest :=
  match f.parent? i, f.indexInParent? i with
  | some p, some k => (f.exchange p k (k + 1) []).1
  | _, _ => f

def detach (f : Forest) (i : NodeId) : Except Fault Forest :=
  match (f.node i).ofClass with
  | .legacy => .ok (f.cut i)
  | .plain => .error .noSuchMember

end Forest
end SvgTree
