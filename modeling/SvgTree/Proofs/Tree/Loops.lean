/-
The walks up and down a forest end.

`Seeks` is the search for a node on the chain of parents and `Walks` the walk with a stack,
both as they run, without a bound.  In a well-formed forest both end from every node, and
the bounded `isAncestor` and `walk` give what they give.  The walk down lists a node and all
below it in document order, each once.
-/
import SvgTree.Proofs.Reachable
import SvgTree.Tree.Walk

namespace SvgTree
namespace Forest

/-- Looking for `a` from a node, or from none, up by parents: whether it is found. -/
inductive Seeks (f : Forest) (a : NodeId) : Option NodeId → Bool → Prop where
  | lost : Seeks f a none false
  | found : Seeks f a (some a) true
  | up {i : NodeId} {b : Bool} : i ≠ a → Seeks f a (f.parent? i) b → Seeks f a (some i) b

/-- Working off a stack, where the children of a node go on top in its place: the nodes in
the order in which they come off. -/
inductive Walks (f : Forest) : List NodeId → List NodeId → Prop where
  | done : Walks f [] []
  | visit {i : NodeId} {stack out : List NodeId} :
    Walks f (f.children i ++ stack) out → Walks f (i :: stack) (i :: out)

theorem Climbs.seeks {f : Forest} {i : NodeId} {l : List NodeId} (h : f.Climbs i l)
    (a : NodeId) : f.Seeks a (some i) (l.contains a) := by
  induction h with
  | @top i hp =>
    by_cases hia : i = a
    · subst hia
      rw [List.contains_iff_mem.mpr (List.mem_singleton_self i)]
      exact .found
    · have hno : [i].contains a = false := by simp [Ne.symm hia]
      rw [hno]
      refine .up hia ?_
      rw [hp]
      exact .lost
  | @up i p l hp _ ih =>
    by_cases hia : i = a
    · subst hia
      rw [List.contains_iff_mem.mpr List.mem_cons_self]
      exact .found
    · have hcons : (i :: l).contains a = l.contains a := by
        rw [List.contains_cons, beq_eq_false_iff_ne.mpr (Ne.symm hia), Bool.false_or]
      rw [hcons]
      refine .up hia ?_
      rw [hp]
      exact ih

theorem walkFrom_eq {f : Forest} {stack out : List NodeId} (h : f.Walks stack out) :
    ∀ {fuel : Nat} (seen : List NodeId), out.length ≤ fuel →
      f.walkFrom fuel stack seen = seen.reverse ++ out := by
  induction h with
  | done =>
    intro fuel seen _
    cases fuel <;> simp [walkFrom]
  | @visit i stack out _ ih =>
    intro fuel seen hf
    cases fuel with
    | zero => simp at hf
    | succ fuel =>
      rw [walkFrom, ih (i :: seen) (Nat.le_of_succ_le_succ hf), List.reverse_cons,
        List.append_assoc, List.singleton_append]

namespace WellFormed

variable {f : Forest} {i j : NodeId} {l : List NodeId}

/-- A node at depth `l.length` is walked by as many levels as are left.  The induction is on
the levels: every child climbs one node more than its parent. -/
theorem walks_preorderFrom (wf : f.WellFormed) (depth : Nat) (hi : i < f.size)
    (hl : f.Climbs i l) (hd : f.size < l.length + depth) {stack out : List NodeId}
    (rest : f.Walks stack out) : f.Walks (i :: stack) (f.preorderFrom depth i ++ out) := by
  induction depth generalizing i l stack out with
  | zero =>
    have := wf.length_le_size hi hl
    omega
  | succ depth ih =>
    rw [preorderFrom, List.cons_append]
    refine .visit ?_
    -- Every child of `i` is walked in its turn.
    have children : ∀ {cs : List NodeId}, (∀ c ∈ cs, c ∈ f.children i) →
        f.Walks (cs ++ stack) (cs.flatMap (f.preorderFrom depth) ++ out) := by
      intro cs hcs
      induction cs with
      | nil => exact rest
      | cons c cs ihc =>
        have hc := hcs c List.mem_cons_self
        rw [List.flatMap_cons, List.append_assoc, List.cons_append]
        refine ih (wf.child_lt hc) (.up (wf.held hc) hl) ?_
          (ihc fun d hd => hcs d (List.mem_cons_of_mem _ hd))
        rw [List.length_cons]
        omega
    exact children fun c hc => hc

theorem above_of_mem_preorderFrom (wf : f.WellFormed) {depth : Nat}
    (h : j ∈ f.preorderFrom depth i) : f.Above i j := by
  induction depth generalizing i with
  | zero => simp [preorderFrom] at h
  | succ depth ih =>
    rw [preorderFrom, List.mem_cons, List.mem_flatMap] at h
    rcases h with rfl | ⟨c, hc, hj⟩
    · obtain ⟨l, hl⟩ := wf.grounded j
      exact ⟨l, hl, hl.head_mem⟩
    · obtain ⟨l, hl, hcl⟩ := ih hj
      obtain ⟨k, hk, hs⟩ := hl.rest_of_mem hcl
      cases hk with
      | top hp => rw [wf.held hc] at hp; cases hp
      | up hp rest =>
        rw [wf.held hc] at hp
        cases hp
        exact ⟨l, hl, hs.subset (List.mem_cons_of_mem _ rest.head_mem)⟩

theorem lt_of_mem_preorderFrom (wf : f.WellFormed) {depth : Nat} (hi : i < f.size)
    (h : j ∈ f.preorderFrom depth i) : j < f.size := by
  induction depth generalizing i with
  | zero => simp [preorderFrom] at h
  | succ depth ih =>
    rw [preorderFrom, List.mem_cons, List.mem_flatMap] at h
    rcases h with rfl | ⟨c, hc, hj⟩
    · exact hi
    · exact ih (wf.child_lt hc) hj

theorem eq_of_above_of_siblings (wf : f.WellFormed) {p c d : NodeId} (hc : c ∈ f.children p)
    (hd : d ∈ f.children p) (hcj : f.Above c j) (hdj : f.Above d j) : c = d := by
  obtain ⟨l, hl, hcl⟩ := hcj
  obtain ⟨l', hl', hdl⟩ := hdj
  rw [hl'.unique hl] at hdl
  obtain ⟨k, hk, hs⟩ := hl.rest_of_mem hcl
  obtain ⟨k', hk', hs'⟩ := hl.rest_of_mem hdl
  obtain ⟨m, hm⟩ := wf.grounded p
  have hkc := hk.unique (.up (wf.held hc) hm)
  have hkd := hk'.unique (.up (wf.held hd) hm)
  have hlen : k.length = k'.length := by rw [hkc, hkd, List.length_cons, List.length_cons]
  have heq := (List.suffix_of_suffix_length_le hs hs' (Nat.le_of_eq hlen)).eq_of_length hlen
  rw [hkc, hkd] at heq
  exact (List.cons.inj heq).1

theorem nodup_preorderFrom (wf : f.WellFormed) (depth : Nat) (i : NodeId) :
    (f.preorderFrom depth i).Nodup := by
  induction depth generalizing i with
  | zero => exact List.nodup_nil
  | succ depth ih =>
    rw [preorderFrom, List.nodup_cons, List.nodup_flatMap]
    refine ⟨fun h => ?_, fun c _ => ih c, ?_⟩
    · obtain ⟨c, hc, hi⟩ := List.mem_flatMap.mp h
      exact wf.not_above_of_mem_children hc (wf.above_of_mem_preorderFrom hi)
    · refine (wf.once i).pairwise_of_forall_ne fun c hc d hd hne => ?_
      intro j hj hj'
      exact hne (wf.eq_of_above_of_siblings hc hd (wf.above_of_mem_preorderFrom hj)
        (wf.above_of_mem_preorderFrom hj'))

/-- The walk from a node ends, and lists it and all below it in document order. -/
theorem walks_preorder (wf : f.WellFormed) (hi : i < f.size) :
    f.Walks [i] (f.preorder i) := by
  obtain ⟨l, hl⟩ := wf.grounded i
  have hpos : 0 < l.length := List.length_pos_of_mem hl.head_mem
  have h := wf.walks_preorderFrom f.size hi hl (by omega) .done
  rwa [List.append_nil] at h

theorem length_preorder_le (wf : f.WellFormed) (hi : i < f.size) :
    (f.preorder i).length ≤ f.size := by
  have hsub : f.preorder i ⊆ List.range f.size := fun j hj =>
    List.mem_range.mpr (wf.lt_of_mem_preorderFrom hi hj)
  have hlen := (List.subperm_of_subset (wf.nodup_preorderFrom _ i) hsub).length_le
  rwa [List.length_range] at hlen

theorem walk_eq_preorder (wf : f.WellFormed) (hi : i < f.size) : f.walk i = f.preorder i :=
  walkFrom_eq (wf.walks_preorder hi) [] (wf.length_preorder_le hi)

end WellFormed

/-- In every reachable forest each climb by parents ends, and so do the search for a node on
it, which decides an adoption, and the walk down from a node; the bounded functions give
what these give. -/
theorem Reachable.loops_end {f : Forest} (h : f.Reachable) {i : NodeId} (hi : i < f.size) :
    (∃ l, f.Climbs i l ∧ f.lineage i = l) ∧
      (∀ a, ∃ b, f.Seeks a (some i) b ∧ f.isAncestor a i = b ∧
        (b = true ↔ ∃ e, f.adopt i a = .error e)) ∧
      ∃ out, f.Walks [i] out ∧ f.walk i = out := by
  have wf := h.wellFormed
  obtain ⟨l, hl⟩ := wf.grounded i
  refine ⟨⟨l, hl, wf.lineage_eq hi hl⟩, fun a => ⟨_, hl.seeks a, ?_, ?_⟩,
    ⟨_, wf.walks_preorder hi, wf.walk_eq_preorder hi⟩⟩
  · rw [isAncestor, wf.lineage_eq hi hl]
  · rw [← wf.lineage_eq hi hl, ← isAncestor, adopt]
    cases f.isAncestor a i <;> simp

/-- The loops end at a node below one that its parent does not hold, after a splice failed. -/
theorem loops_end_of_failed_splice :
    (Forest.empty.afterAll tangledCalls).Reachable ∧
      3 < (Forest.empty.afterAll tangledCalls).size ∧
      (∃ l, (Forest.empty.afterAll tangledCalls).Climbs 3 l ∧
        (Forest.empty.afterAll tangledCalls).lineage 3 = l) ∧
      (∀ a, ∃ b, (Forest.empty.afterAll tangledCalls).Seeks a (some 3) b ∧
        (Forest.empty.afterAll tangledCalls).isAncestor a 3 = b ∧
        (b = true ↔ ∃ e, (Forest.empty.afterAll tangledCalls).adopt 3 a = .error e)) ∧
      ∃ out, (Forest.empty.afterAll tangledCalls).Walks [3] out ∧
        (Forest.empty.afterAll tangledCalls).walk 3 = out := by
  have reach : (Forest.empty.afterAll tangledCalls).Reachable :=
    ⟨tangledCalls, by decide +kernel, rfl⟩
  have hi : 3 < (Forest.empty.afterAll tangledCalls).size := by decide +kernel
  exact ⟨reach, hi, reach.loops_end hi⟩

end Forest
end SvgTree
