/-
Traversals during which nodes are detached.

A visitor may take the node that it is handed out of its tree, and may change what nodes hold.
The one list that gets shorter by that is the one that holds the node.  Its owner comes before
the node in document order, so this list is not read again.  All lists that are still to be
read are those of the tree as it was at the start, and the traversal goes through the whole of
it in document order.
-/
import SvgTree.Proofs.Rule.Detaching
import SvgTree.Proofs.Rule.Searching
import SvgTree.Proofs.Tree.Outermost
import SvgTree.Proofs.Tree.Turns

namespace SvgTree
namespace Forest

variable {f g h : Forest} {i d r : NodeId} {l : List NodeId}

/-! ### What the visitor may do -/

/-- Every node that was there has its class, its parent and its children still.  What it holds can
have changed, and nodes can have been made that stand apart. -/
structure Retouched (f g : Forest) : Prop where
  size_le : f.size ≤ g.size
  class_eq : ∀ i, i < f.size → (g.node i).ofClass = (f.node i).ofClass
  parent_eq : ∀ i, i < f.size → g.parent? i = f.parent? i
  children_eq : ∀ i, i < f.size → g.children i = f.children i

/-- Edits that retouch the forest, and detachments of the one node. -/
inductive DetachesOnly (i : NodeId) : Forest → Forest → Prop where
  | done {f : Forest} : DetachesOnly i f f
  | retouch {f g h : Forest} : Retouched f g → DetachesOnly i g h → DetachesOnly i f h
  | detach {f g h : Forest} : f.detach i = .ok g → DetachesOnly i g h → DetachesOnly i f h

theorem SameShape.retouched (s : SameShape f g)
    (hclass : ∀ i, (g.node i).ofClass = (f.node i).ofClass) : Retouched f g where
  size_le := Nat.le_of_eq s.size_eq.symm
  class_eq i _ := hclass i
  parent_eq i _ := s.parent_eq i
  children_eq i _ := s.children_eq i

/-! ### What it leaves as it was -/

theorem cut_views (f : Forest) (i : NodeId) :
    (f.cut i).size = f.size ∧ ∀ j, (f.cut i).holds j = f.holds j := by
  unfold cut
  split
  · exact exchange_views ..
  · exact ⟨rfl, fun _ => rfl⟩

theorem children_cut_of_notMem (hd : i ∉ f.children d) :
    (f.cut i).children d = f.children d := by
  unfold cut
  split
  · rename_i p k hp hk
    have hheld : i ∈ f.children p := by
      rw [indexInParent?, hp, Option.bind_some] at hk
      obtain ⟨hlt, hi, -⟩ := List.idxOf?_eq_some_iff.mp hk
      exact hi ▸ List.getElem_mem hlt
    have hne : ¬ (p = d ∧ d < f.size) := fun h => hd (h.1 ▸ hheld)
    refine ((foldl_setParent_views none _ _).2.1 d).trans ?_
    exact (children_setChildren ..).trans (if_neg hne)
  · rfl

/-- The listed nodes have in `g` the children that they have in `f`, and can be detached. -/
structure Untouched (f g : Forest) (l : List NodeId) : Prop where
  size_le : f.size ≤ g.size
  children_eq : ∀ d ∈ l, g.children d = f.children d
  legacy : ∀ d ∈ l, (g.node d).ofClass = .legacy

namespace Untouched

theorem tail (u : Untouched f g (i :: l)) : Untouched f g l where
  size_le := u.size_le
  children_eq d hd := u.children_eq d (List.mem_cons_of_mem _ hd)
  legacy d hd := u.legacy d (List.mem_cons_of_mem _ hd)

theorem retouch (u : Untouched f g l) (hlt : ∀ d ∈ l, d < f.size) (e : Retouched g h) :
    Untouched f h l where
  size_le := Nat.le_trans u.size_le e.size_le
  children_eq d hd := by
    rw [e.children_eq d (Nat.lt_of_lt_of_le (hlt d hd) u.size_le), u.children_eq d hd]
  legacy d hd := by
    rw [e.class_eq d (Nat.lt_of_lt_of_le (hlt d hd) u.size_le), u.legacy d hd]

theorem detach (u : Untouched f g l) (hnot : ∀ d ∈ l, i ∉ f.children d)
    (e : g.detach i = .ok h) : Untouched f h l := by
  obtain rfl := eq_cut_of_detach e
  obtain ⟨hsize, hholds⟩ := g.cut_views i
  refine ⟨hsize ▸ u.size_le, fun d hd => ?_, fun d hd => ?_⟩
  · have hfree : i ∉ g.children d := u.children_eq d hd ▸ hnot d hd
    rw [children_cut_of_notMem hfree, u.children_eq d hd]
  · rw [ofClass_node_congr (hholds d), u.legacy d hd]

theorem detachesOnly (u : Untouched f g l) (hlt : ∀ d ∈ l, d < f.size)
    (hnot : ∀ d ∈ l, i ∉ f.children d) (e : DetachesOnly i g h) : Untouched f h l := by
  induction e with
  | done => exact u
  | retouch e _ ih => exact ih (u.retouch hlt e)
  | detach e _ ih => exact ih (u.detach hnot e)

end Untouched

/-! ### The traversal -/

/-- In document order no list that is still to be read holds the node that comes next. -/
theorem notMem_children_of_order (wf : f.WellFormed)
    (order : (i :: l).Pairwise fun a b => ¬ f.Above b a) :
    ∀ d ∈ i :: l, i ∉ f.children d := by
  intro d hd hi
  rcases List.mem_cons.mp hd with rfl | hd
  · exact wf.not_above_of_mem_children hi (wf.above_self d)
  · have habove : f.Above d i := (wf.above_iff_of_parent? (wf.held hi)).mpr (.inr (wf.above_self d))
    exact (List.pairwise_cons.mp order).1 d hd habove

variable {α : Type} {visit : NodeId → Visit α → Visit α × Option Fault}

/-- From a stack whose trees are as they were at the start the traversal goes through these, and
ends.  The induction is on the nodes that are still to come. -/
theorem exists_turns_of_untouched (wf : f.WellFormed) {rest : List NodeId} {count : Nat}
    {stack : List Queued} {v : Visit α}
    (hvisit : ∀ turns q left x, Turns visit count stack v turns (q :: left) x →
      (x.forest.node q.node).ofClass = .legacy →
        ∃ w, visit q.node x = (w, none) ∧ DetachesOnly q.node x.forest w.forest)
    (hrest : (stack.map (·.node)).flatMap f.walk = rest) (hlt : ∀ q ∈ stack, q.node < f.size)
    (order : rest.Pairwise fun a b => ¬ f.Above b a) (u : Untouched f v.forest rest) :
    ∃ turns w, Turns visit count stack v turns [] w ∧ turns.map (·.node) = rest := by
  induction rest generalizing count stack v with
  | nil =>
    cases stack with
    | nil => exact ⟨[], v, .stop, rfl⟩
    | cons q stack =>
      rw [List.map_cons, List.flatMap_cons, wf.walk_eq (hlt q List.mem_cons_self)] at hrest
      cases hrest
  | cons i rest ih =>
    cases stack with
    | nil => cases hrest
    | cons q stack =>
      have hbounds : ∀ d ∈ i :: rest, d < f.size := by
        intro d hd
        obtain ⟨s, hs, hds⟩ := List.mem_flatMap.mp (hrest ▸ hd)
        obtain ⟨p, hp, rfl⟩ := List.mem_map.mp hs
        exact wf.lt_of_mem_walk (hlt p hp) hds
      rw [List.map_cons, List.flatMap_cons, wf.walk_eq (hlt q List.mem_cons_self),
        List.cons_append, List.cons.injEq] at hrest
      obtain ⟨rfl, hrest⟩ := hrest
      obtain ⟨w, hturn, hedits⟩ := hvisit [] q stack v .stop (u.legacy _ List.mem_cons_self)
      have u' := u.detachesOnly hbounds (notMem_children_of_order wf order) hedits
      have hchildren := u'.children_eq q.node List.mem_cons_self
      have hqueue : (w.forest.queue q.node count ++ stack).map (·.node) =
          f.children q.node ++ stack.map (·.node) := by
        simp [queue, hchildren, Function.comp_def]
      obtain ⟨turns, x, t, hnodes⟩ := ih
        (fun turns p left x t => hvisit _ p left x (.turn hturn t))
        (by rw [hqueue, List.flatMap_append, hrest])
        (by
          intro p hp
          rcases List.mem_append.mp hp with hp | hp
          · obtain ⟨c, hc, rfl⟩ := List.mem_map.mp hp
            exact wf.child_lt (hchildren ▸ hc)
          · exact hlt p (List.mem_cons_of_mem _ hp))
        (List.pairwise_cons.mp order).2 u'.tail
      exact ⟨_, x, .turn hturn t, congrArg (q.node :: ·) hnodes⟩

/-- Where a tree of legacy nodes is traversed by a visitor that, at each node that it is handed,
detaches this or not and else leaves the places of all nodes, the traversal ends, and the visitor
has been handed the nodes of the tree as it was at the start, each once and in document order. -/
theorem WellFormed.visits_in_order (wf : f.WellFormed) (tree : f.AllLegacy r) (a : α)
    (hvisit : ∀ turns q left v, Turns visit 0 [⟨r, none⟩] ⟨f, a⟩ turns (q :: left) v →
      (v.forest.node q.node).ofClass = .legacy →
        ∃ w, visit q.node v = (w, none) ∧ DetachesOnly q.node v.forest w.forest) :
    ∃ turns w, Turns visit 0 [⟨r, none⟩] ⟨f, a⟩ turns [] w ∧
      turns.map (·.node) = f.preorder r ∧ (turns.map (·.node)).Nodup ∧
      ∀ fuel, f.size ≤ fuel → traverse visit fuel [r] ⟨f, a⟩ = (w, none) := by
  have hr := tree.root_lt
  have u : Untouched f f (f.walk r) := ⟨Nat.le_refl _, fun _ _ => rfl, tree.legacy⟩
  obtain ⟨turns, w, t, hnodes⟩ := exists_turns_of_untouched wf hvisit
    (List.flatMap_singleton ..)
    (fun q hq => (List.mem_singleton.mp hq) ▸ hr) (wf.pairwise_walk hr) u
  refine ⟨turns, w, t, hnodes.trans (wf.walk_eq_preorder hr), ?_, fun fuel hfuel => ?_⟩
  · rw [hnodes]
    exact wf.nodup_walk hr
  · have hlen : turns.length ≤ f.size := by
      rw [← List.length_map, hnodes, wf.walk_eq_preorder hr]
      exact wf.length_preorder_le hr
    obtain ⟨more, rfl⟩ := Nat.exists_eq_add_of_le (Nat.le_trans hlen hfuel)
    refine (t.traverse_eq more).trans ?_
    cases more <;> rfl

def stripping (i : NodeId) (v : Visit Unit) : Visit Unit × Option Fault :=
  match (v.forest.setName i (.text "gone")).detach i with
  | .ok g => (⟨g, ()⟩, none)
  | .error e => (v, some e)

/-- Every node of the tree of `rootedCalls` is handed over, though all that were before it have
been taken out by then. -/
theorem visits_in_order_of_stripping :
    (Forest.empty.afterAll rootedCalls).WellFormed ∧
      (Forest.empty.afterAll rootedCalls).AllLegacy 0 ∧
      ∃ turns w, Turns stripping 0 [⟨0, none⟩] ⟨Forest.empty.afterAll rootedCalls, ()⟩ turns [] w ∧
        turns.map (·.node) = [0, 1, 3, 2] ∧
        traverse stripping 4 [0] ⟨Forest.empty.afterAll rootedCalls, ()⟩ = (w, none) ∧
        w.forest.children 0 = [] ∧ w.forest.children 1 = [] := by
  have reach : (Forest.empty.afterAll rootedCalls).Reachable :=
    ⟨rootedCalls, by decide +kernel, rfl⟩
  have tree : (Forest.empty.afterAll rootedCalls).AllLegacy 0 := by decide +kernel
  have visitor : ∀ i (v : Visit Unit), (v.forest.node i).ofClass = .legacy →
      ∃ w, stripping i v = (w, none) ∧ DetachesOnly i v.forest w.forest := by
    intro i v hlegacy
    have trimmed := trimmed_setName v.forest i "gone"
    have detached := detach_legacy ((trimmed.ofClass_eq i).trans hlegacy)
    refine ⟨⟨_, ()⟩, by rw [stripping, detached], ?_⟩
    exact .retouch ((sameShape_setName v.forest i _).retouched trimmed.ofClass_eq)
      (.detach detached .done)
  obtain ⟨turns, w, run, hnodes, -, hdone⟩ := reach.wellFormed.visits_in_order tree ()
    fun _ q _ v _ hlegacy => visitor q.node v hlegacy
  have order : (Forest.empty.afterAll rootedCalls).preorder 0 = [0, 1, 3, 2] := by decide +kernel
  have hfour := hdone 4 (by decide +kernel)
  have lists : (traverse stripping 4 [0] ⟨Forest.empty.afterAll rootedCalls, ()⟩).1.forest.children
      0 = [] ∧ (traverse stripping 4 [0] ⟨Forest.empty.afterAll rootedCalls, ()⟩).1.forest.children
      1 = [] := by
    decide +kernel
  rw [hfour] at lists
  exact ⟨reach.wellFormed, tree, turns, w, run, hnodes.trans order, hfour, lists⟩

end Forest
end SvgTree
