/-
The outermost of some nodes of a tree.

In document order no node comes after one that stands below it.  Of the nodes of a list those
are outermost that stand below no other of them.  So to walk a list in document order and to
pass over what is below a node already met is to meet the outermost nodes.
-/
import SvgTree.Proofs.Tree.Links

namespace SvgTree
namespace Forest

variable {f : Forest} {a b i j r : NodeId} {l rest : List NodeId}

/-! ### Standing above -/

theorem Above.trans (h : f.Above a b) (h' : f.Above b i) : f.Above a i := by
  obtain ⟨l, hl, hb⟩ := h'
  obtain ⟨k, hk, hs⟩ := hl.rest_of_mem hb
  obtain ⟨m, hm, ha⟩ := h
  rw [hm.unique hk] at ha
  exact ⟨l, hl, hs.subset ha⟩

theorem Above.antisymm (h : f.Above a b) (h' : f.Above b a) : a = b := by
  obtain ⟨l, hl, hb⟩ := h'
  cases hl with
  | top _ => exact (List.mem_singleton.mp hb).symm
  | up hp rest =>
    by_contra hne
    have hb := (List.mem_cons.mp hb).resolve_left (Ne.symm hne)
    exact not_above_of_parent? hp (h.trans ⟨_, rest, hb⟩)

namespace WellFormed

theorem above_of_mem_walk (wf : f.WellFormed) (hr : r < f.size) (hi : i ∈ f.walk r) :
    f.Above r i := by
  rw [wf.walk_eq_preorder hr] at hi
  exact wf.above_of_mem_preorderFrom hi

theorem pairwise_walk (wf : f.WellFormed) (hr : r < f.size) :
    (f.walk r).Pairwise fun i j => ¬ f.Above j i := by
  refine wf.tree_induction
    (motive := fun r => (f.walk r).Pairwise fun i j => ¬ f.Above j i) ?_ hr
  intro r hr ih
  rw [wf.walk_eq hr, List.pairwise_cons, List.pairwise_flatMap]
  refine ⟨?_, ih, ?_⟩
  · intro j hj habove
    obtain ⟨c, hc, hjc⟩ := List.mem_flatMap.mp hj
    have hcj := wf.above_of_mem_walk (wf.child_lt hc) hjc
    exact wf.not_above_of_mem_children hc (hcj.trans habove)
  · refine (wf.once r).pairwise_of_forall_ne ?_
    intro c hc d hd hne i hi j hj habove
    have hci := wf.above_of_mem_walk (wf.child_lt hc) hi
    have hdj := wf.above_of_mem_walk (wf.child_lt hd) hj
    exact hne (wf.eq_of_above_of_siblings hc hd hci (hdj.trans habove))

end WellFormed

/-! ### The outermost nodes -/

def isFree (f : Forest) (l : List NodeId) (i : NodeId) : Bool :=
  l.all fun a => a == i || !f.isAncestor a i

/-- The nodes of a list that stand below no other of them. -/
def outermost (f : Forest) (l : List NodeId) : List NodeId := l.filter (f.isFree l)

namespace WellFormed

theorem isFree_iff (wf : f.WellFormed) (hi : i < f.size) :
    f.isFree l i = true ↔ ∀ a ∈ l, f.Above a i → a = i := by
  rw [isFree, List.all_eq_true]
  refine forall₂_congr fun a _ => ?_
  rw [← wf.isAncestor_iff hi]
  cases f.isAncestor a i <;> simp

theorem mem_outermost (wf : f.WellFormed) (hl : ∀ i ∈ l, i < f.size) :
    i ∈ f.outermost l ↔ i ∈ l ∧ ∀ a ∈ l, f.Above a i → a = i := by
  rw [outermost, List.mem_filter]
  exact and_congr_right fun hi => wf.isFree_iff (hl i hi)

/-! Take a list in which no node comes after one that stands below it, as it does in document
order. -/

/-- A node is free as soon as none of those before it stands above it. -/
theorem isFree_append_cons_iff (wf : f.WellFormed) (hi : i < f.size)
    (order : (l ++ i :: rest).Pairwise fun a b => ¬ f.Above b a) :
    f.isFree (l ++ i :: rest) i = true ↔ ∀ a ∈ l, ¬ f.Above a i := by
  obtain ⟨-, hlater, hbefore⟩ := List.pairwise_append.mp order
  rw [wf.isFree_iff hi]
  constructor
  · intro h a ha habove
    have hai := h a (by simp [ha]) habove
    exact hbefore a ha i List.mem_cons_self (hai ▸ wf.above_self i)
  · intro h a ha habove
    rcases List.mem_append.mp ha with ha | ha
    · exact absurd habove (h a ha)
    · rcases List.mem_cons.mp ha with hai | ha
      · exact hai
      · exact absurd habove ((List.pairwise_cons.mp hlater).1 a ha)

/-- Which of the nodes behind it are free does not depend on a node that is not: what stands
above it stands above all that it does. -/
theorem isFree_append_cons_of_above (wf : f.WellFormed) (hj : j < f.size)
    (order : (l ++ i :: rest).Pairwise fun a b => ¬ f.Above b a) (ha : a ∈ l)
    (hai : f.Above a i) : f.isFree (l ++ i :: rest) j = f.isFree (l ++ rest) j := by
  have hbefore := (List.pairwise_append.mp order).2.2
  rw [Bool.eq_iff_iff, wf.isFree_iff hj, wf.isFree_iff hj]
  constructor
  · intro h b hb
    exact h b (by simp at hb ⊢; tauto)
  · intro h b hb hbj
    by_cases hbi : b = i
    · subst hbi
      have haj := h a (by simp [ha]) (hai.trans hbj)
      exact absurd (haj ▸ hbj) (hbefore a ha b List.mem_cons_self)
    · exact h b (by simp at hb ⊢; tauto) hbj

end WellFormed
end Forest
end SvgTree
