/-
Document order.

What holds of a node whenever it holds of its children holds of every node of a well-formed
forest.  A recursion down the children with a bound is the case where the bound goes down
with them, so a bound that is high enough makes no difference.  What is left of the walk is
its equation, a node and then the walks of its children, and the rest follows from that.
-/
import SvgTree.Proofs.Tree.Loops

namespace SvgTree
namespace Forest
namespace WellFormed

variable {f : Forest} {i j r d c : NodeId} {l : List NodeId}

/-! ### Induction over a tree -/

/-- Induction over the levels below a node, as long as there are more levels than nodes that
can stand on them. -/
theorem depth_induction (wf : f.WellFormed) {motive : Nat → NodeId → Prop}
    (node : ∀ {depth : Nat} {i : NodeId}, i < f.size →
      (∀ c ∈ f.children i, motive depth c) → motive (depth + 1) i)
    {depth : Nat} (hi : i < f.size) (hl : f.Climbs i l) (hd : f.size < l.length + depth) :
    motive depth i := by
  induction depth generalizing i l with
  | zero =>
    have := wf.length_le_size hi hl
    omega
  | succ depth ih =>
    refine node hi fun c hc => ih (wf.child_lt hc) (.up (wf.held hc) hl) ?_
    rw [List.length_cons]
    omega

/-- As many levels as there are nodes are enough. -/
theorem size_induction (wf : f.WellFormed) {motive : Nat → NodeId → Prop}
    (node : ∀ {depth : Nat} {i : NodeId}, i < f.size →
      (∀ c ∈ f.children i, motive depth c) → motive (depth + 1) i)
    (hi : i < f.size) : motive f.size i := by
  obtain ⟨l, hl⟩ := wf.grounded i
  have hpos : 0 < l.length := List.length_pos_of_mem hl.head_mem
  have hd : f.size < l.length + f.size := by omega
  exact wf.depth_induction (motive := motive) node hi hl hd

/-- Induction over a tree, from the children up. -/
theorem tree_induction (wf : f.WellFormed) {motive : NodeId → Prop}
    (node : ∀ {i : NodeId}, i < f.size → (∀ c ∈ f.children i, motive c) → motive i)
    (hi : i < f.size) : motive i :=
  wf.size_induction (motive := fun _ i => motive i) node hi

/-! ### The equation of the walk -/

theorem preorder_eq (wf : f.WellFormed) (hi : i < f.size) :
    f.preorder i = i :: (f.children i).flatMap f.preorder := by
  have hmore : f.preorderFrom (f.size + 1) i = f.preorderFrom f.size i := by
    refine wf.size_induction
      (motive := fun depth i => f.preorderFrom (depth + 1) i = f.preorderFrom depth i) ?_ hi
    intro depth i _ ih
    rw [preorderFrom, preorderFrom, List.flatMap_congr ih]
  exact hmore.symm

theorem walk_eq (wf : f.WellFormed) (hi : i < f.size) :
    f.walk i = i :: (f.children i).flatMap f.walk := by
  have hchildren : (f.children i).flatMap f.walk = (f.children i).flatMap f.preorder :=
    List.flatMap_congr fun c hc => wf.walk_eq_preorder (wf.child_lt hc)
  rw [hchildren, wf.walk_eq_preorder hi, wf.preorder_eq hi]

theorem mem_walk_self (wf : f.WellFormed) (hi : i < f.size) : i ∈ f.walk i := by
  rw [wf.walk_eq hi]
  exact List.mem_cons_self

theorem lt_of_mem_walk (wf : f.WellFormed) (hr : r < f.size) (h : j ∈ f.walk r) : j < f.size := by
  rw [wf.walk_eq_preorder hr] at h
  exact wf.lt_of_mem_preorderFrom hr h

theorem nodup_walk (wf : f.WellFormed) (hr : r < f.size) : (f.walk r).Nodup := by
  rw [wf.walk_eq_preorder hr]
  exact wf.nodup_preorderFrom f.size r

/-! ### Blocks -/

theorem walk_child_infix (wf : f.WellFormed) (hi : i < f.size) (hc : c ∈ f.children i) :
    f.walk c <:+: f.walk i := by
  have hblock : f.walk c <:+: ((f.children i).map f.walk).flatten :=
    List.infix_of_mem_flatten (List.mem_map_of_mem hc)
  rw [wf.walk_eq hi, List.flatMap_def]
  exact hblock.trans (List.suffix_cons _ _).isInfix

/-- The walk from a node of a tree is one block of the walk from its root. -/
theorem walk_infix (wf : f.WellFormed) (hr : r < f.size) (hd : d ∈ f.walk r) :
    f.walk d <:+: f.walk r := by
  refine wf.tree_induction (motive := fun r => d ∈ f.walk r → f.walk d <:+: f.walk r) ?_ hr hd
  intro i hi ih hd
  rw [wf.walk_eq hi, List.mem_cons, List.mem_flatMap] at hd
  rcases hd with rfl | ⟨c, hc, hdc⟩
  · exact List.infix_refl _
  · exact (ih c hc hdc).trans (wf.walk_child_infix hi hc)

theorem mem_walk_of_child (wf : f.WellFormed) (hr : r < f.size) (hd : d ∈ f.walk r)
    (hc : c ∈ f.children d) : c ∈ f.walk r := by
  have hdlt := wf.lt_of_mem_walk hr hd
  have hcd : c ∈ f.walk d :=
    (wf.walk_child_infix hdlt hc).subset (wf.mem_walk_self (wf.child_lt hc))
  exact (wf.walk_infix hr hd).subset hcd

end WellFormed

theorem walk_congr {f g : Forest} {r : NodeId} (wf : f.WellFormed) (wg : g.WellFormed)
    (hsize : g.size = f.size) (hr : r < f.size)
    (h : ∀ i ∈ f.walk r, g.children i = f.children i) : g.walk r = f.walk r := by
  revert h
  refine wf.tree_induction (motive := fun r =>
    (∀ i ∈ f.walk r, g.children i = f.children i) → g.walk r = f.walk r) ?_ hr
  intro r hr ih h
  have hchildren : ∀ c ∈ f.children r, g.walk c = f.walk c := by
    intro c hc
    refine ih c hc ?_
    intro i hi
    exact h i ((wf.walk_child_infix hr hc).subset hi)
  rw [wg.walk_eq (hsize ▸ hr), wf.walk_eq hr, h r (wf.mem_walk_self hr),
    List.flatMap_congr hchildren]

end Forest
end SvgTree
