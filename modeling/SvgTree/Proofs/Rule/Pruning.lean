/-
What is left when the nodes of a list are cut out of a tree.

Nodes below a root that come in document order are detached one after the other, each only
while it still stands below the root.  A node does not any more once one above it was cut out,
so what is cut are the outermost nodes of the list.  The tree that is left has the nodes at
or above which none of the list stands, each with the children that are not on the list; what
was cut out keeps all that stands below it.
-/
import SvgTree.Proofs.Rule.Detaching
import SvgTree.Proofs.Rule.Trimmed
import SvgTree.Proofs.Tree.Outermost

namespace SvgTree
namespace Forest

variable {f g h : Forest} {root i p c : NodeId} {l gone top : List NodeId}

/-! ### Cuts one after the other -/

/-- Where cuts were made at a root and below it, a node stands below the root as long as none
that was cut out below the root stands above it.  The induction is on the climb from the
node. -/
theorem CutOut.above_iff (o : CutOut f g gone) (wf : f.WellFormed) (wg : g.WellFormed)
    (hgone : ∀ a ∈ gone, f.Above root a) :
    g.Above root i ↔ f.Above root i ∧ ∀ a ∈ gone, a ≠ root → ¬ f.Above a i := by
  obtain ⟨k, hk⟩ := wf.grounded i
  induction hk with
  | @top i hp =>
    have hgp : g.parent? i = none := by
      rw [o.parent_eq, hp, ite_self]
    rw [WellFormed.above_iff_of_top hp, WellFormed.above_iff_of_top hgp]
    constructor
    · intro hri
      refine ⟨hri, ?_⟩
      intro a _ hne ha
      exact hne (((WellFormed.above_iff_of_top hp).mp ha).trans hri.symm)
    · intro h
      exact h.1
  | @up i p k hp _ ih =>
    by_cases hroot : i = root
    · subst hroot
      refine iff_of_true (wg.above_self i) ⟨wf.above_self i, ?_⟩
      intro a ha hne habove
      exact hne (habove.antisymm (hgone a ha))
    · by_cases hi : i ∈ gone
      · have hgp : g.parent? i = none := by
          rw [o.parent_eq, if_pos hi]
        rw [WellFormed.above_iff_of_top hgp]
        refine iff_of_false (Ne.symm hroot) ?_
        intro h
        exact h.2 i hi hroot (wf.above_self i)
      · have hgp : g.parent? i = some p := by
          rw [o.parent_eq, if_neg hi, hp]
        have hnot {a : NodeId} (ha : a ∈ gone) : a ≠ i := ne_of_mem_of_not_mem ha hi
        rw [wg.above_iff_of_parent? hgp, ih, wf.above_iff_of_parent? hp,
          or_iff_right (Ne.symm hroot), or_iff_right (Ne.symm hroot)]
        refine and_congr_right fun _ => forall₂_congr fun a ha => ?_
        rw [wf.above_iff_of_parent? hp, or_iff_right (hnot ha)]

/-- After cuts at the root or below it, a node of the tree still hangs from the root as long as
none that was cut out below the root stands above it. -/
theorem CutOut.isAncestor_iff (o : CutOut f g (top ++ gone)) (wf : f.WellFormed)
    (wg : g.WellFormed) (hroot : root < f.size) (htop : ∀ a ∈ top, a = root)
    (hgone : ∀ a ∈ gone, a ∈ f.walk root ∧ a ≠ root) (hi : i ∈ f.walk root) :
    g.isAncestor root i = true ↔ ∀ a ∈ gone, ¬ f.Above a i := by
  have hbelow : ∀ a ∈ top ++ gone, f.Above root a := by
    intro a ha
    rcases List.mem_append.mp ha with ha | ha
    · rw [htop a ha]
      exact wf.above_self root
    · exact wf.above_of_mem_walk hroot (hgone a ha).1
  rw [wg.isAncestor_iff (o.size_eq ▸ wf.lt_of_mem_walk hroot hi), o.above_iff wf wg hbelow]
  constructor
  · intro h a ha
    exact h.2 a (List.mem_append_right _ ha) (hgone a ha).2
  · intro h
    refine ⟨wf.above_of_mem_walk hroot hi, ?_⟩
    intro a ha haroot
    rcases List.mem_append.mp ha with ha | ha
    · exact absurd (htop a ha) haroot
    · exact h a ha

/-- Below a root nodes of a list that comes in document order are detached, after those of
`gone` and whatever was done about the root itself.  Every one of them is cut out that has no
other node of either list above it. -/
theorem detachAll_free (gone : List NodeId) (wf : f.WellFormed) (hroot : root < f.size)
    (htop : ∀ a ∈ top, a = root)
    (hgone : ∀ a ∈ gone ++ l, a ∈ f.walk root ∧ a ≠ root)
    (legacy : ∀ i ∈ l, (f.node i).ofClass = .legacy)
    (order : (gone ++ l).Pairwise fun i j => ¬ f.Above j i)
    (o : CutOut f g (top ++ gone)) (wg : g.WellFormed) (count : Nat) (cuts : List Cut) :
    ∃ h done, g.detachAll root l count cuts = (h, .ok done) ∧
      CutOut f h (top ++ (gone ++ l.filter (f.isFree (gone ++ l)))) ∧ h.WellFormed ∧
      done.1 = count + (l.filter (f.isFree (gone ++ l))).length := by
  induction l generalizing g gone count cuts with
  | nil =>
    refine ⟨g, (count, cuts), rfl, ?_, wg, rfl⟩
    simpa using o
  | cons i rest ih =>
    obtain ⟨hwalk, hne⟩ := hgone i (by simp)
    have hlt := wf.lt_of_mem_walk hroot hwalk
    have hfree := wf.isFree_append_cons_iff hlt order
    have hconnected : g.isAncestor root i = true ↔ f.isFree (gone ++ i :: rest) i = true := by
      rw [o.isAncestor_iff wf wg hroot htop (fun a ha => hgone a (by simp [ha])) hwalk, hfree]
    rw [detachAll]
    cases hi : f.isFree (gone ++ i :: rest) i with
    | true =>
      obtain ⟨p, hp, -⟩ := ((wf.mem_walk_iff_held hroot).mp hwalk).resolve_left hne
      have hnot : i ∉ top ++ gone := by
        intro hmem
        rcases List.mem_append.mp hmem with hmem | hmem
        · exact hne (htop i hmem)
        · exact hfree.mp hi i hmem (wf.above_self i)
      have hheld : i ∈ g.children p := by
        rw [o.children_eq]
        exact mem_without.mpr ⟨hp, hnot⟩
      have hclass : (g.node i).ofClass = .legacy := by
        rw [ofClass_node_congr (o.holds_eq i)]
        exact legacy i (by simp)
      have hdetach := detach_legacy hclass
      have hcut := o.trans (cutOut_cut wg hheld)
      rw [if_pos (hconnected.mpr hi), hdetach]
      rw [List.append_assoc] at hcut
      have hsplit : gone ++ i :: rest = (gone ++ [i]) ++ rest := by simp
      rw [hsplit] at hgone order hi ⊢
      obtain ⟨h, done, hrun, ho, wh, hcount⟩ := ih (gone ++ [i]) hgone
        (fun j hj => legacy j (List.mem_cons_of_mem _ hj)) order hcut
        (kept_wellFormed.detach wg hdetach) (count + 1) (cuts ++ g.cutOf i)
      refine ⟨h, done, hrun, ?_, wh, ?_⟩
      · rw [List.filter_cons_of_pos hi]
        simpa using ho
      · rw [hcount, List.filter_cons_of_pos hi, List.length_cons]
        omega
    | false =>
      have hnot : ¬ g.isAncestor root i = true := by
        rw [hconnected, hi]
        simp
      obtain ⟨a, ha, habove⟩ : ∃ a ∈ gone, f.Above a i := by
        by_contra hnone
        rw [hfree.mpr fun a ha habove => hnone ⟨a, ha, habove⟩] at hi
        cases hi
      have hsame : ∀ j ∈ rest, f.isFree (gone ++ i :: rest) j = f.isFree (gone ++ rest) j := by
        intro j hj
        have hjlt := wf.lt_of_mem_walk hroot (hgone j (by simp [hj])).1
        exact wf.isFree_append_cons_of_above hjlt order ha habove
      rw [if_neg hnot, List.filter_cons_of_neg (by simp [hi]), List.filter_congr hsame]
      refine ih gone (fun b hb => hgone b (by simp at hb ⊢; tauto))
        (fun j hj => legacy j (List.mem_cons_of_mem _ hj)) ?_ o wg count cuts
      exact order.sublist ((List.sublist_cons_self i rest).append_left gone)

/-- Of a list that comes in document order the outermost nodes are cut out. -/
theorem detachAll_outermost (wf : f.WellFormed) (hroot : root < f.size)
    (htop : ∀ a ∈ top, a = root) (hl : ∀ i ∈ l, i ∈ f.walk root ∧ i ≠ root)
    (legacy : ∀ i ∈ l, (f.node i).ofClass = .legacy) (order : l.Sublist (f.walk root))
    (o : CutOut f g top) (wg : g.WellFormed) (count : Nat) (cuts : List Cut) :
    ∃ h done, g.detachAll root l count cuts = (h, .ok done) ∧
      CutOut f h (top ++ f.outermost l) ∧ h.WellFormed ∧
      done.1 = count + (f.outermost l).length := by
  refine detachAll_free [] wf hroot htop hl legacy ?_ ?_ wg count cuts
  · exact (wf.pairwise_walk hroot).sublist order
  · rwa [List.append_nil]

/-! ### What is left -/

def isSpared (f : Forest) (l : List NodeId) (i : NodeId) : Bool :=
  l.all fun a => !f.isAncestor a i

theorem WellFormed.isSpared_iff (wf : f.WellFormed) (hi : i < f.size) :
    f.isSpared l i = true ↔ ∀ a ∈ l, ¬ f.Above a i := by
  rw [isSpared, List.all_eq_true]
  refine forall₂_congr fun a _ => ?_
  rw [← wf.isAncestor_iff hi]
  cases f.isAncestor a i <;> simp

/-- The tree under `root` in `g` is the tree in `f` without the nodes of the list and all below
them.  Every node holds what it held.  The outermost nodes of the list stand by themselves, and
all below them is as it was. -/
structure Pruned (f g : Forest) (root : NodeId) (l : List NodeId) : Prop where
  holds_eq : ∀ i, g.holds i = f.holds i
  walk_eq : g.walk root = (f.walk root).filter (f.isSpared l)
  children_eq : ∀ p ∈ g.walk root, g.children p = without (f.children p) l
  parent_eq : ∀ i ∈ g.walk root, i ≠ root → g.parent? i = f.parent? i
  apart : ∀ c ∈ f.outermost l, g.parent? c = none ∧ g.walk c = f.walk c
  intact : ∀ c ∈ f.outermost l, ∀ i ∈ f.walk c,
    g.children i = f.children i ∧ (i ≠ c → g.parent? i = f.parent? i)

theorem flatMap_without {k : NodeId → List NodeId} (h : ∀ i ∈ l, i ∈ gone → k i = []) :
    (without l gone).flatMap k = l.flatMap k := by
  induction l with
  | nil => rfl
  | cons i rest ih =>
    have hrest := ih fun j hj => h j (List.mem_cons_of_mem _ hj)
    unfold without at hrest ⊢
    by_cases hi : i ∈ gone
    · rw [List.filter_cons_of_neg (by simpa using hi), hrest, List.flatMap_cons,
        h i List.mem_cons_self hi, List.nil_append]
    · rw [List.filter_cons_of_pos (by simpa using hi), List.flatMap_cons, hrest,
        List.flatMap_cons]

theorem notMem_below_outermost (wf : f.WellFormed) (hroot : root < f.size)
    (htop : ∀ a ∈ top, a = root) (hl : ∀ i ∈ l, i ∈ f.walk root ∧ i ≠ root)
    (hc : c ∈ f.outermost l) (hi : f.Above c i) (hne : i ≠ c) : i ∉ top ++ f.outermost l := by
  have hlt : ∀ i ∈ l, i < f.size := fun i hi => wf.lt_of_mem_walk hroot (hl i hi).1
  obtain ⟨hcl, -⟩ := (wf.mem_outermost hlt).mp hc
  intro hmem
  rcases List.mem_append.mp hmem with hmem | hmem
  · have hrc := wf.above_of_mem_walk hroot (hl c hcl).1
    rw [htop i hmem] at hi
    exact (hl c hcl).2 (hi.antisymm hrc)
  · exact hne (((wf.mem_outermost hlt).mp hmem).2 c hcl hi).symm

/-- Under a node at or above which none of the list stands, the children that were cut out are
those on the list. -/
theorem mem_cut_children_iff (wf : f.WellFormed) (hroot : root < f.size)
    (htop : ∀ a ∈ top, a = root) (hl : ∀ i ∈ l, i ∈ f.walk root ∧ i ≠ root)
    (hp : p ∈ f.walk root) (hfree : ∀ a ∈ l, ¬ f.Above a p) (hc : c ∈ f.children p) :
    c ∈ top ++ f.outermost l ↔ c ∈ l := by
  have hlt : ∀ i ∈ l, i < f.size := fun i hi => wf.lt_of_mem_walk hroot (hl i hi).1
  rw [List.mem_append, wf.mem_outermost hlt]
  constructor
  · intro h
    rcases h with h | h
    · have hrp := wf.above_of_mem_walk hroot hp
      rw [htop c h] at hc
      exact absurd hrp (wf.not_above_of_mem_children hc)
    · exact h.1
  · intro h
    refine .inr ⟨h, ?_⟩
    intro a ha habove
    exact ((wf.above_iff_of_parent? (wf.held hc)).mp habove).resolve_right (hfree a ha)

/-- The walk passes over what is on the list and all below it.  The induction is on the tree
below a node at or above which none of the list stands. -/
theorem CutOut.walk_eq (o : CutOut f g (top ++ f.outermost l)) (wf : f.WellFormed)
    (wg : g.WellFormed) (hroot : root < f.size) (htop : ∀ a ∈ top, a = root)
    (hl : ∀ i ∈ l, i ∈ f.walk root ∧ i ≠ root) (hp : p ∈ f.walk root)
    (hfree : ∀ a ∈ l, ¬ f.Above a p) : g.walk p = (f.walk p).filter (f.isSpared l) := by
  have hplt := wf.lt_of_mem_walk hroot hp
  revert hp hfree
  refine wf.tree_induction (motive := fun p => p ∈ f.walk root → (∀ a ∈ l, ¬ f.Above a p) →
    g.walk p = (f.walk p).filter (f.isSpared l)) ?_ hplt
  intro p hplt ih hp hfree
  have hchildren : g.children p = without (f.children p) l := by
    rw [o.children_eq]
    exact without_congr fun c hc => mem_cut_children_iff wf hroot htop hl hp hfree hc
  -- Below a child on the list nothing is spared.
  have hbelow : ∀ c ∈ f.children p, c ∈ l → (f.walk c).filter (f.isSpared l) = [] := by
    intro c hc hcl
    refine List.filter_eq_nil_iff.mpr ?_
    intro i hi hspared
    have hilt := wf.lt_of_mem_walk (wf.child_lt hc) hi
    exact (wf.isSpared_iff hilt).mp hspared c hcl (wf.above_of_mem_walk (wf.child_lt hc) hi)
  have hothers : ∀ c ∈ without (f.children p) l,
      g.walk c = (f.walk c).filter (f.isSpared l) := by
    intro c hc
    obtain ⟨hc, hcl⟩ := mem_without.mp hc
    refine ih c hc (wf.mem_walk_of_child hroot hp hc) ?_
    intro a ha habove
    rcases (wf.above_iff_of_parent? (wf.held hc)).mp habove with hac | hap
    · exact hcl (hac ▸ ha)
    · exact hfree a ha hap
  have hself : f.isSpared l p = true := (wf.isSpared_iff hplt).mpr hfree
  rw [wg.walk_eq (o.size_eq.symm ▸ hplt), wf.walk_eq hplt, hchildren,
    List.filter_cons_of_pos hself, List.filter_flatMap, List.flatMap_congr hothers]
  congr 1
  exact flatMap_without (k := fun c => (f.walk c).filter (f.isSpared l)) hbelow

/-- What cuts of the outermost nodes of a list leave, and of the root before them or not. -/
theorem CutOut.pruned (o : CutOut f g (top ++ f.outermost l)) (wf : f.WellFormed)
    (wg : g.WellFormed) (hroot : root < f.size) (htop : ∀ a ∈ top, a = root)
    (hl : ∀ i ∈ l, i ∈ f.walk root ∧ i ≠ root) : Pruned f g root l := by
  have hlt : ∀ i ∈ l, i < f.size := fun i hi => wf.lt_of_mem_walk hroot (hl i hi).1
  have hmem : ∀ c ∈ f.outermost l, c ∈ l := fun c hc => ((wf.mem_outermost hlt).mp hc).1
  have hrootfree : ∀ a ∈ l, ¬ f.Above a root := by
    intro a ha habove
    exact (hl a ha).2 (habove.antisymm (wf.above_of_mem_walk hroot (hl a ha).1))
  have hwalk := o.walk_eq wf wg hroot htop hl (wf.mem_walk_self hroot) hrootfree
  have hspared : ∀ i ∈ g.walk root, i ∈ f.walk root ∧ ∀ a ∈ l, ¬ f.Above a i := by
    intro i hi
    rw [hwalk] at hi
    obtain ⟨hi, hs⟩ := List.mem_filter.mp hi
    exact ⟨hi, (wf.isSpared_iff (wf.lt_of_mem_walk hroot hi)).mp hs⟩
  have hchildren : ∀ c ∈ f.outermost l, ∀ i ∈ f.walk c, g.children i = f.children i := by
    intro c hc i hi
    have hci := wf.above_of_mem_walk (hlt c (hmem c hc)) hi
    rw [o.children_eq]
    refine without_eq_self ?_
    intro d hd
    have hcd : f.Above c d := (wf.above_iff_of_parent? (wf.held hd)).mpr (.inr hci)
    refine notMem_below_outermost wf hroot htop hl hc hcd ?_
    intro hdc
    exact wf.not_above_of_mem_children hd (hdc ▸ hci)
  refine ⟨o.holds_eq, hwalk, ?_, ?_, ?_, ?_⟩
  · intro p hp
    obtain ⟨hp, hfree⟩ := hspared p hp
    rw [o.children_eq]
    exact without_congr fun c hc => mem_cut_children_iff wf hroot htop hl hp hfree hc
  · intro i hi hne
    rw [o.parent_eq, if_neg]
    intro hcut
    rcases List.mem_append.mp hcut with hcut | hcut
    · exact hne (htop i hcut)
    · exact (hspared i hi).2 i (hmem i hcut) (wf.above_self i)
  · intro c hc
    refine ⟨?_, walk_congr wf wg o.size_eq (hlt c (hmem c hc)) (hchildren c hc)⟩
    rw [o.parent_eq, if_pos (List.mem_append_right _ hc)]
  · intro c hc i hi
    refine ⟨hchildren c hc i hi, ?_⟩
    intro hne
    have hci := wf.above_of_mem_walk (hlt c (hmem c hc)) hi
    rw [o.parent_eq, if_neg (notMem_below_outermost wf hroot htop hl hc hci hne)]

end Forest
end SvgTree
