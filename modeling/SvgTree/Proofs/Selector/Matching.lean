/-
Queries are filters of the walk.

A query tests one node after the other and fails at the first whose kind cannot be looked
up.  Where every kind can be, as text can, the test of a node is what the selector accepts,
so a query for all nodes keeps the accepted ones in document order, and a query for one node
stops at the first of these.
-/
import SvgTree.Proofs.Tree.Order
import SvgTree.Selector.Query

namespace SvgTree

theorem Selector.test_eq {n : Fields} (h : n.kind.isHashable = true) (s : Selector) :
    s.test n = .ok (s.accepts n) := by
  simp [Selector.test, h]

namespace Forest

variable {f : Forest} {s : Selector} {l : List NodeId}

def accepted (f : Forest) (s : Selector) (l : List NodeId) : List NodeId :=
  l.filter fun i => s.accepts (f.node i).toFields

theorem accepted_cons (f : Forest) (s : Selector) (i : NodeId) (l : List NodeId) :
    f.accepted s (i :: l) =
      if s.accepts (f.node i).toFields then i :: f.accepted s l else f.accepted s l :=
  List.filter_cons

/-- Where every test gives what the selector accepts, so does the query. -/
theorem matching_of_tests
    (h : ∀ i ∈ l, s.test (f.node i).toFields = .ok (s.accepts (f.node i).toFields)) :
    f.matching s l = .ok (f.accepted s l) := by
  induction l with
  | nil => rfl
  | cons i rest ih =>
    have hrest := ih fun j hj => h j (List.mem_cons_of_mem _ hj)
    rw [matching, h i List.mem_cons_self, hrest, accepted_cons]

theorem matching_eq (h : ∀ i ∈ l, (f.node i).kind.isHashable = true) :
    f.matching s l = .ok (f.accepted s l) :=
  matching_of_tests fun i hi => Selector.test_eq (h i hi) s

theorem firstMatching_eq (h : ∀ i ∈ l, (f.node i).kind.isHashable = true) :
    f.firstMatching s l = .ok (f.accepted s l).head? := by
  induction l with
  | nil => rfl
  | cons i rest ih =>
    have hi := h i List.mem_cons_self
    have hrest := ih fun j hj => h j (List.mem_cons_of_mem _ hj)
    rw [firstMatching, Selector.test_eq hi, accepted_cons]
    cases s.accepts (f.node i).toFields with
    | true => rfl
    | false => exact hrest

theorem of_mem_matching {found : List NodeId} {i : NodeId} (h : f.matching s l = .ok found)
    (hi : i ∈ found) : i ∈ l ∧ s.test (f.node i).toFields = .ok true := by
  induction l generalizing found with
  | nil =>
    cases h
    cases hi
  | cons j rest ih =>
    rw [matching] at h
    split at h
    · cases h
    rename_i matched htest
    split at h
    · cases h
    rename_i others hrest
    cases h
    have later : i ∈ others → i ∈ j :: rest ∧ s.test (f.node i).toFields = .ok true :=
      fun hi => ⟨List.mem_cons_of_mem _ (ih hrest hi).1, (ih hrest hi).2⟩
    cases matched with
    | false => exact later hi
    | true =>
      rcases List.mem_cons.mp hi with rfl | hi
      · exact ⟨List.mem_cons_self, htest⟩
      · exact later hi

/-- In every reachable forest the walk from a node, which works with a stack, is the recursive
order of its subtree with each node once, and the walk from a node of the subtree is one
block of it.  Where the kinds are text, a query for all nodes gives those of the walk that
the selector matches, in order, and a query for one node gives the first of them. -/
theorem Reachable.document_order (h : f.Reachable) {r : NodeId} (hr : r < f.size) :
    f.Walks [r] (f.walk r) ∧ f.walk r = r :: (f.children r).flatMap f.walk ∧
      (f.walk r).Nodup ∧ (∀ d ∈ f.walk r, f.walk d <:+: f.walk r) ∧
      ((∀ i ∈ f.walk r, ∃ k, (f.node i).kind = .text k) → ∀ s : Selector,
        (∀ i ∈ f.walk r,
          s.test (f.node i).toFields = .ok (s.accepts (f.node i).toFields)) ∧
          f.queryAll r s = .ok (f.accepted s (f.walk r)) ∧
          f.query r s = .ok (f.accepted s (f.walk r)).head?) := by
  have wf := h.wellFormed
  have hwalks : f.Walks [r] (f.walk r) := by
    rw [wf.walk_eq_preorder hr]
    exact wf.walks_preorder hr
  refine ⟨hwalks, wf.walk_eq hr, wf.nodup_walk hr, fun d hd => wf.walk_infix hr hd, ?_⟩
  intro hkinds s
  have hhash := fun i hi => Value.isHashable_of_text (hkinds i hi)
  exact ⟨fun i hi => Selector.test_eq (hhash i hi) s, matching_eq hhash, firstMatching_eq hhash⟩

theorem text_kinds_rooted : ∀ i ∈ (Forest.empty.afterAll rootedCalls).walk 0,
    ∃ k, ((Forest.empty.afterAll rootedCalls).node i).kind = .text k := by
  decide +kernel

/-- The nodes under a root come in order, and a query for two tags gives both as they stand
there. -/
theorem document_order_of_rooted :
    (Forest.empty.afterAll rootedCalls).Reachable ∧ 0 < (Forest.empty.afterAll rootedCalls).size ∧
      (Forest.empty.afterAll rootedCalls).walk 0 = [0, 1, 3, 2] ∧
      (Forest.empty.afterAll rootedCalls).walk 1 <:+: [0, 1, 3, 2] ∧
      (∀ i ∈ (Forest.empty.afterAll rootedCalls).walk 0,
        ∃ k, ((Forest.empty.afterAll rootedCalls).node i).kind = .text k) ∧
      (Forest.empty.afterAll rootedCalls).queryAll 0 (Selector.parse "c, a") = .ok [1, 2] ∧
      (Forest.empty.afterAll rootedCalls).query 0 (Selector.parse "c, a") = .ok (some 1) := by
  have reach : (Forest.empty.afterAll rootedCalls).Reachable :=
    ⟨rootedCalls, by decide +kernel, rfl⟩
  have root : 0 < (Forest.empty.afterAll rootedCalls).size := by decide +kernel
  have walk : (Forest.empty.afterAll rootedCalls).walk 0 = [0, 1, 3, 2] := by decide +kernel
  have found : (Forest.empty.afterAll rootedCalls).accepted (Selector.parse "c, a")
      [0, 1, 3, 2] = [1, 2] := by
    decide +kernel
  obtain ⟨-, -, -, blocks, queries⟩ := reach.document_order root
  obtain ⟨-, all, one⟩ := queries text_kinds_rooted (Selector.parse "c, a")
  rw [walk, found] at all one
  have block := blocks 1 (by rw [walk]; decide)
  rw [walk] at block
  exact ⟨reach, root, walk, block, text_kinds_rooted, all, one⟩

end Forest
end SvgTree
