/-
What detachments leave.

A cut takes a node that is held out of the list that holds it and leaves it without a parent;
a node that is not held stays as it is.  So all that cuts one after the other do is told by
the nodes that were cut: they are on no list any more, and nothing else has moved.  One thing a
detachment does not undo is a loose link, a parent that was given to a new node and that does not
hold it: there is no list to take the node from, and it keeps that parent.
-/
import SvgTree.Proofs.Tree.Links

namespace SvgTree
namespace Forest

/-- `g` is `f` without the nodes of `gone`, each taken from the list that held it. -/
structure CutOut (f g : Forest) (gone : List NodeId) : Prop where
  size_eq : g.size = f.size
  holds_eq : ∀ i, g.holds i = f.holds i
  held : ∀ i ∈ gone, ∃ p, i ∈ f.children p
  parent_eq : ∀ i, g.parent? i = if i ∈ gone then none else f.parent? i
  children_eq : ∀ p, g.children p = without (f.children p) gone

variable {f g h : Forest} {root i p : NodeId} {n : Nat} {gone more l : List NodeId}

namespace CutOut

theorem refl (f : Forest) : CutOut f f [] where
  size_eq := rfl
  holds_eq _ := rfl
  held i hi := absurd hi List.not_mem_nil
  parent_eq i := by rw [if_neg List.not_mem_nil]
  children_eq p := (without_nil _).symm

theorem trans (a : CutOut f g gone) (b : CutOut g h more) : CutOut f h (gone ++ more) where
  size_eq := b.size_eq.trans a.size_eq
  holds_eq i := (b.holds_eq i).trans (a.holds_eq i)
  held i hi := by
    rcases List.mem_append.mp hi with hi | hi
    · exact a.held i hi
    · obtain ⟨p, hp⟩ := b.held i hi
      rw [a.children_eq, mem_without] at hp
      exact ⟨p, hp.1⟩
  parent_eq i := by
    rw [b.parent_eq, a.parent_eq]
    by_cases hg : i ∈ gone <;> by_cases hm : i ∈ more <;> simp [hg, hm]
  children_eq p := by rw [b.children_eq, a.children_eq, without_without]

theorem moved_iff (c : CutOut f g gone) (i : NodeId) :
    i ∈ gone ↔ g.parent? i ≠ f.parent? i ∨ ∃ p, i ∈ f.children p ∧ i ∉ g.children p := by
  constructor
  · intro hi
    obtain ⟨p, hp⟩ := c.held i hi
    refine .inr ⟨p, hp, fun hg => ?_⟩
    rw [c.children_eq, mem_without] at hg
    exact hg.2 hi
  · intro hmoved
    by_contra hi
    rcases hmoved with hparent | ⟨p, hp, hg⟩
    · exact hparent (by rw [c.parent_eq, if_neg hi])
    · exact hg (by rw [c.children_eq]; exact mem_without.mpr ⟨hp, hi⟩)

end CutOut

/-! ### One cut -/

theorem indexInParent?_eq_none_iff (wf : f.WellFormed) :
    f.indexInParent? i = none ↔ ∀ p, i ∉ f.children p := by
  unfold indexInParent?
  constructor
  · intro h p hp
    rw [wf.held hp, Option.bind_some, List.idxOf?_eq_none_iff] at h
    exact h hp
  · intro h
    cases f.parent? i with
    | none => rfl
    | some p => exact List.idxOf?_eq_none_iff.mpr (h p)

theorem cut_of_not_held (wf : f.WellFormed) (h : ∀ p, i ∉ f.children p) : f.cut i = f := by
  rw [cut, (indexInParent?_eq_none_iff wf).mpr h]
  split
  · rename_i hk
    cases hk
  · rfl

theorem window_of_idxOf? (h : l.idxOf? i = some n) (nodup : l.Nodup) :
    window l n (n + 1) = [i] ∧ exchanged l n (n + 1) [] = without l [i] := by
  obtain ⟨hn, rfl, -⟩ := List.idxOf?_eq_some_iff.mp h
  constructor
  · rw [window, List.drop_eq_getElem_cons hn, Nat.add_sub_cancel_left]
    rfl
  · rw [exchanged, without_nil, without_nil, List.append_nil, ← List.eraseIdx_eq_take_drop_succ,
      ← nodup.erase_getElem n hn, nodup.erase_eq_filter]
    exact List.filter_congr fun c _ => by simp [bne, BEq.beq]

theorem cutOut_cut (wf : f.WellFormed) (hheld : i ∈ f.children p) : CutOut f (f.cut i) [i] := by
  have hparent := wf.held hheld
  obtain ⟨k, hk⟩ : ∃ k, (f.children p).idxOf? i = some k :=
    Option.ne_none_iff_exists'.mp fun h => List.idxOf?_eq_none_iff.mp h hheld
  have hindex : f.indexInParent? i = some k := by
    rw [indexInParent?, hparent, Option.bind_some, hk]
  have hcut : f.cut i = (f.exchange p k (k + 1) []).1 := by
    rw [cut, hparent, hindex]
  obtain ⟨hwindow, hlist⟩ := window_of_idxOf? hk (wf.once p)
  obtain ⟨hsize, hholds⟩ := exchange_views f p k (k + 1) []
  rw [hcut]
  refine ⟨hsize, hholds, fun j hj => ⟨p, ?_⟩, fun j => ?_, fun q => ?_⟩
  · rwa [List.mem_singleton.mp hj]
  · rw [parent?_exchange wf p k (k + 1) (by simp), exchange_snd, hwindow, without_nil,
      if_neg List.not_mem_nil]
  · rw [children_exchange wf (wf.parent_lt hparent)]
    split
    · rename_i hq
      rw [hq, hlist]
    · rename_i hq
      -- The node is on the list of its holder and on no other.
      rw [without_nil, without_eq_self]
      rintro c hc hci
      rw [List.mem_singleton.mp hci] at hc
      exact hq (wf.eq_of_mem_children hc hheld)

theorem cut_cases (wf : f.WellFormed) (i : NodeId) :
    CutOut f (f.cut i) [i] ∨ (f.cut i = f ∧ ∀ p, i ∉ f.children p) := by
  by_cases hheld : ∃ p, i ∈ f.children p
  · obtain ⟨p, hp⟩ := hheld
    exact .inl (cutOut_cut wf hp)
  · have hfree : ∀ p, i ∉ f.children p := fun p hp => hheld ⟨p, hp⟩
    exact .inr ⟨cut_of_not_held wf hfree, hfree⟩

/-! ### Cuts one after the other -/

theorem eq_cut_of_detach (h : f.detach i = .ok g) : g = f.cut i := by
  unfold detach at h
  split at h
  · cases h
    rfl
  · cases h

/-- Whatever comes of a list of detachments, some of the nodes were cut out. -/
theorem cutOut_detachAll (wf : f.WellFormed) (root : NodeId) (l : List NodeId) (count : Nat)
    (cuts : List Cut) :
    ∃ gone, CutOut f (f.detachAll root l count cuts).1 gone ∧ gone ⊆ l := by
  induction l generalizing f count cuts with
  | nil => exact ⟨[], .refl f, List.Subset.refl _⟩
  | cons i rest ih =>
    rw [detachAll]
    split
    · cases hd : f.detach i with
      | error e => exact ⟨[], .refl f, List.nil_subset _⟩
      | ok g =>
        have wg := kept_wellFormed.detach wf hd
        obtain ⟨gone, hgone, hsub⟩ := ih wg (count + 1) (cuts ++ f.cutOf i)
        rw [eq_cut_of_detach hd] at hgone ⊢
        rcases cut_cases wf i with c | ⟨heq, -⟩
        · exact ⟨i :: gone, c.trans hgone, List.cons_subset_cons i hsub⟩
        · rw [heq] at hgone ⊢
          exact ⟨gone, hgone, List.Subset.trans hsub (List.subset_cons_self _ _)⟩
    · obtain ⟨gone, hgone, hsub⟩ := ih wf count cuts
      exact ⟨gone, hgone, List.Subset.trans hsub (List.subset_cons_self _ _)⟩

/-! ### One node detached -/

theorem WellFormed.top_iff (wf : f.WellFormed) (hi : i < f.size) :
    f.parent? i = none ↔ ∀ p, p < f.size → p ≠ i → f.isAncestor p i = false := by
  constructor
  · intro htop p _ hne
    rw [← Bool.not_eq_true, wf.isAncestor_iff hi, above_iff_of_top htop]
    exact hne
  · intro hnone
    by_contra hparent
    obtain ⟨p, hp⟩ := Option.ne_none_iff_exists'.mp hparent
    have hne : p ≠ i := by
      rintro rfl
      exact not_above_of_parent? hp (wf.above_self p)
    have habove : f.isAncestor p i = true :=
      (wf.isAncestor_iff hi).mpr ((wf.above_iff_of_parent? hp).mpr (.inr (wf.above_self p)))
    rw [hnone p (wf.parent_lt hp) hne] at habove
    cases habove

/-- What a detachment leaves whatever the node's parent is: the node is on no list, and no more
has changed than that, and perhaps its own parent. -/
structure TakenOut (f g : Forest) (n : NodeId) : Prop where
  size_eq : g.size = f.size
  holds_eq : ∀ i, g.holds i = f.holds i
  not_held : ∀ p, n ∉ g.children p
  index_eq : g.indexInParent? n = none
  children_eq : ∀ p, g.children p = without (f.children p) [n]
  parent_eq : ∀ i, i ≠ n → g.parent? i = f.parent? i
  walk_eq : g.walk n = f.walk n
  below_eq : ∀ i ∈ f.walk n, g.children i = f.children i

theorem takenOut_detach (wf : f.WellFormed) (hi : i < f.size) (h : f.detach i = .ok g) :
    TakenOut f g i := by
  have wg := kept_wellFormed.detach wf h
  rw [eq_cut_of_detach h] at wg ⊢
  -- No node below it holds it.
  have hbelow : ∀ j ∈ f.walk i, i ∉ f.children j := by
    intro j hj hmem
    obtain ⟨l, hl⟩ := wf.grounded j
    exact not_above_of_parent? (wf.held hmem) ((wf.mem_walk_iff hi hl).mp hj).1
  rcases cut_cases wf i with c | ⟨heq, hfree⟩
  · have hfree : ∀ p, i ∉ (f.cut i).children p := by
      intro p hp
      rw [c.children_eq, mem_without] at hp
      exact hp.2 (List.mem_singleton_self i)
    have hsame : ∀ j ∈ f.walk i, (f.cut i).children j = f.children j := by
      intro j hj
      rw [c.children_eq, without_eq_self]
      intro d hd hdi
      exact hbelow j hj (List.mem_singleton.mp hdi ▸ hd)
    refine ⟨c.size_eq, c.holds_eq, hfree, (indexInParent?_eq_none_iff wg).mpr hfree,
      c.children_eq, ?_, walk_congr wf wg c.size_eq hi hsame, hsame⟩
    intro j hj
    rw [c.parent_eq, if_neg fun hmem => hj (List.mem_singleton.mp hmem)]
  · rw [heq]
    refine ⟨rfl, fun _ => rfl, hfree, (indexInParent?_eq_none_iff wf).mpr hfree, ?_,
      fun _ _ => rfl, rfl, fun _ _ => rfl⟩
    intro p
    rw [without_eq_self]
    intro c hc hci
    exact hfree p (List.mem_singleton.mp hci ▸ hc)

theorem parent?_cut_eq_none_iff (wf : f.WellFormed) :
    (f.cut i).parent? i = none ↔ ∀ p, ¬ f.Loose i p := by
  rcases cut_cases wf i with c | ⟨heq, hfree⟩
  · obtain ⟨q, hq⟩ := c.held i (List.mem_singleton_self i)
    refine iff_of_true (by rw [c.parent_eq, if_pos (List.mem_singleton_self i)]) ?_
    rintro p ⟨hp, hnot⟩
    exact hnot (Option.some.inj ((wf.held hq).symm.trans hp) ▸ hq)
  · rw [heq]
    constructor
    · rintro htop p ⟨hp, -⟩
      rw [htop] at hp
      cases hp
    · intro hnone
      by_contra hparent
      obtain ⟨p, hp⟩ := Option.ne_none_iff_exists'.mp hparent
      exact hnone p ⟨hp, hfree p⟩

/-- In every reachable forest the detachment of a legacy node takes it out of the list that it is
on, moves nothing else, and leaves nothing for a second one to do.  Afterwards the node has no
parent, and no other node above it, just when it had no link to a parent that does not hold it.
Where it had such a link the detachment does nothing at all. -/
theorem Reachable.node_disconnected (hf : f.Reachable) (hi : i < f.size)
    (hclass : (f.node i).ofClass = .legacy) :
    ∃ g, f.detach i = .ok g ∧ TakenOut f g i ∧ g.detach i = .ok g ∧
      (g.parent? i = none ↔ ∀ p, ¬ f.Loose i p) ∧
      ((∀ p, p < f.size → p ≠ i → g.isAncestor p i = false) ↔ ∀ p, ¬ f.Loose i p) ∧
      ((∃ p, f.Loose i p) → g = f) := by
  have wf := hf.wellFormed
  have hdetach : f.detach i = .ok (f.cut i) := by rw [detach, hclass]
  have wg := kept_wellFormed.detach wf hdetach
  have htaken := takenOut_detach wf hi hdetach
  refine ⟨f.cut i, hdetach, htaken, ?_, parent?_cut_eq_none_iff wf, ?_, ?_⟩
  · rw [detach, ofClass_node_congr (htaken.holds_eq i), hclass,
      cut_of_not_held wg htaken.not_held]
  · rw [← parent?_cut_eq_none_iff wf, wg.top_iff (htaken.size_eq ▸ hi), htaken.size_eq]
  · rintro ⟨p, hp, hnot⟩
    refine cut_of_not_held wf fun q hq => ?_
    exact hnot (Option.some.inj ((wf.held hq).symm.trans hp) ▸ hq)

/-- The element `a` is cut off with what it holds, and the root keeps `c`. -/
theorem node_disconnected_of_rooted :
    (Forest.empty.afterAll rootedCalls).Reachable ∧
      1 < (Forest.empty.afterAll rootedCalls).size ∧
      ((Forest.empty.afterAll rootedCalls).node 1).ofClass = .legacy ∧
      (Forest.empty.afterAll rootedCalls).children 0 = [1, 2] ∧
      ∃ g, (Forest.empty.afterAll rootedCalls).detach 1 = .ok g ∧ g.parent? 1 = none ∧
        g.children 0 = [2] ∧ g.walk 1 = [1, 3] ∧ g.isAncestor 0 1 = false ∧
        g.detach 1 = .ok g := by
  have reach : (Forest.empty.afterAll rootedCalls).Reachable :=
    ⟨rootedCalls, by decide +kernel, rfl⟩
  have lt : 1 < (Forest.empty.afterAll rootedCalls).size := by decide +kernel
  have legacy : ((Forest.empty.afterAll rootedCalls).node 1).ofClass = .legacy := by
    decide +kernel
  have tight : ∀ p, ¬ (Forest.empty.afterAll rootedCalls).Loose 1 p := by
    have held : 1 ∈ (Forest.empty.afterAll rootedCalls).children 0 := by decide +kernel
    rintro p ⟨hp, hnot⟩
    exact hnot (Option.some.inj ((reach.wellFormed.held held).symm.trans hp) ▸ held)
  obtain ⟨g, hdetach, htaken, again, hparent, hancestor, -⟩ := reach.node_disconnected lt legacy
  refine ⟨reach, lt, legacy, by decide +kernel, g, hdetach, hparent.mpr tight, ?_, ?_,
    hancestor.mpr tight 0 (by decide +kernel) (by decide), again⟩
  · rw [htaken.children_eq]
    decide +kernel
  · rw [htaken.walk_eq]
    decide +kernel

/-- An element that names the root for its parent, and that the root does not hold, still has
that parent when it has been detached. -/
theorem disowned_keeps_parent :
    (Forest.empty.afterAll disownedCalls).Reachable ∧
      ((Forest.empty.afterAll disownedCalls).node 2).ofClass = .legacy ∧
      ∃ g, (Forest.empty.afterAll disownedCalls).detach 2 = .ok g ∧ g.parent? 2 = some 0 ∧
        g.isAncestor 0 2 = true := by
  have reach : (Forest.empty.afterAll disownedCalls).Reachable :=
    ⟨disownedCalls, by decide +kernel, rfl⟩
  have legacy : ((Forest.empty.afterAll disownedCalls).node 2).ofClass = .legacy := by
    decide +kernel
  have index : (Forest.empty.afterAll disownedCalls).indexInParent? 2 = none := by decide +kernel
  have same := cut_of_not_held reach.wellFormed
    ((indexInParent?_eq_none_iff reach.wellFormed).mp index)
  refine ⟨reach, legacy, Forest.empty.afterAll disownedCalls, ?_, by decide +kernel,
    by decide +kernel⟩
  rw [detach, legacy, same]

end Forest
end SvgTree
