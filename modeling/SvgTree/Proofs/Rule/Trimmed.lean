/-
Trees that a plugin can work on, and what its work leaves of them.

Plugins ask three things of a tree: that its nodes are of the legacy class, that their kinds
can be looked up, and that their names can.  Whatever they do, an edit of a name or of
attributes or a cut, no node gets a child more, and every node keeps its class, its kind and a
text for its name.  So the tree that is left under the root is one that the next plugin can
work on.
-/
import SvgTree.Proofs.Kept
import SvgTree.Proofs.Tree.Order

namespace SvgTree
namespace Forest

/-- All nodes of the tree are legacy nodes whose kinds and names are text. -/
structure LegacyTree (f : Forest) (root : NodeId) : Prop where
  root_lt : root < f.size
  legacy : ∀ i ∈ f.walk root, (f.node i).ofClass = .legacy
  kind : ∀ i ∈ f.walk root, ∃ k, (f.node i).kind = .text k
  name : ∀ i ∈ f.walk root, ∃ n, (f.node i).name = .text n

instance (f : Forest) (root : NodeId) : Decidable (f.LegacyTree root) :=
  decidable_of_iff
    (root < f.size ∧ (∀ i ∈ f.walk root, (f.node i).ofClass = .legacy) ∧
      (∀ i ∈ f.walk root, ∃ k, (f.node i).kind = .text k) ∧
      ∀ i ∈ f.walk root, ∃ n, (f.node i).name = .text n)
    ⟨fun ⟨hr, hl, hk, hn⟩ => ⟨hr, hl, hk, hn⟩, fun h => ⟨h.root_lt, h.legacy, h.kind, h.name⟩⟩

/-- What is left of a forest after cuts and edits that leave texts for names. -/
structure Trimmed (f g : Forest) : Prop where
  size_eq : g.size = f.size
  children_subset : ∀ i, g.children i ⊆ f.children i
  ofClass_eq : ∀ i, (g.node i).ofClass = (f.node i).ofClass
  kind_eq : ∀ i, (g.node i).kind = (f.node i).kind
  name_text : ∀ {i : NodeId}, (∃ n, (f.node i).name = .text n) → ∃ n, (g.node i).name = .text n

variable {f g h : Forest} {root i : NodeId}

namespace Trimmed

theorem refl (f : Forest) : Trimmed f f :=
  ⟨rfl, fun _ => List.Subset.refl _, fun _ => rfl, fun _ => rfl, fun hn => hn⟩

theorem trans (a : Trimmed f g) (b : Trimmed g h) : Trimmed f h where
  size_eq := b.size_eq.trans a.size_eq
  children_subset i := List.Subset.trans (b.children_subset i) (a.children_subset i)
  ofClass_eq i := (b.ofClass_eq i).trans (a.ofClass_eq i)
  kind_eq i := (b.kind_eq i).trans (a.kind_eq i)
  name_text hn := b.name_text (a.name_text hn)

theorem walk_subset (t : Trimmed f g) (wf : f.WellFormed) (wg : g.WellFormed)
    (hroot : root < f.size) : g.walk root ⊆ f.walk root := by
  refine wg.tree_induction (motive := fun i => g.walk i ⊆ f.walk i) ?_ (t.size_eq ▸ hroot)
  intro i hi ih
  rw [wg.walk_eq hi, wf.walk_eq (t.size_eq ▸ hi)]
  refine List.cons_subset_cons i fun j hj => ?_
  obtain ⟨c, hc, hjc⟩ := List.mem_flatMap.mp hj
  exact List.mem_flatMap.mpr ⟨c, t.children_subset i hc, ih c hc hjc⟩

theorem legacyTree (t : Trimmed f g) (wf : f.WellFormed) (wg : g.WellFormed)
    (tree : f.LegacyTree root) : g.LegacyTree root := by
  have hwalk := t.walk_subset wf wg tree.root_lt
  refine ⟨t.size_eq.symm ▸ tree.root_lt, fun i hi => ?_, fun i hi => ?_, fun i hi => ?_⟩
  · rw [t.ofClass_eq i]
    exact tree.legacy i (hwalk hi)
  · rw [t.kind_eq i]
    exact tree.kind i (hwalk hi)
  · exact t.name_text (tree.name i (hwalk hi))

end Trimmed

/-! ### Edits -/

theorem node_modify (f : Forest) (i j : NodeId) (edit : Node → Node) :
    (f.modify i edit).node j = f.node j ∨ (f.modify i edit).node j = edit (f.node j) := by
  unfold node
  rw [node?_modify]
  by_cases hij : i = j
  · rw [if_pos hij]
    cases f.node? j with
    | none => exact .inl rfl
    | some n => exact .inr rfl
  · rw [if_neg hij]
    exact .inl rfl

/-- An edit of one node that leaves its place, its class and its kind, and a text for its
name. -/
theorem trimmed_modify (f : Forest) (i : NodeId) {edit : Node → Node}
    (hshape : SameShape f (f.modify i edit)) (hclass : ∀ n, (edit n).ofClass = n.ofClass)
    (hkind : ∀ n, (edit n).kind = n.kind)
    (hname : ∀ n, (∃ t, n.name = .text t) → ∃ t, (edit n).name = .text t) :
    Trimmed f (f.modify i edit) where
  size_eq := hshape.size_eq
  children_subset j := by
    rw [hshape.children_eq j]
    exact List.Subset.refl _
  ofClass_eq j := by
    rcases node_modify f i j edit with h | h <;> rw [h]
    exact hclass _
  kind_eq j := by
    rcases node_modify f i j edit with h | h <;> rw [h]
    exact hkind _
  name_text := by
    intro j hj
    rcases node_modify f i j edit with h | h <;> rw [h]
    · exact hj
    · exact hname _ hj

theorem trimmed_setName (f : Forest) (i : NodeId) (name : String) :
    Trimmed f (f.setName i (.text name)) :=
  trimmed_modify f i (sameShape_setName f i _) (fun _ => rfl) (fun _ => rfl) fun _ _ => ⟨name, rfl⟩

theorem trimmed_setAttributes (f : Forest) (i : NodeId) (m : Attributes) :
    Trimmed f (f.setAttributes i m) :=
  trimmed_modify f i (sameShape_setAttributes f i m) (fun _ => rfl) (fun _ => rfl) fun _ hn => hn

/-! ### Cuts -/

theorem trimmed_of_holds (hsize : g.size = f.size) (hholds : ∀ i, g.holds i = f.holds i)
    (hchildren : ∀ i, g.children i ⊆ f.children i) : Trimmed f g where
  size_eq := hsize
  children_subset := hchildren
  ofClass_eq i := ofClass_node_congr (hholds i)
  kind_eq i := congrArg Fields.kind (toFields_node_congr (hholds i))
  name_text := by
    intro i hn
    rwa [congrArg Fields.name (toFields_node_congr (hholds i))]

theorem trimmed_cut (wf : f.WellFormed) (i : NodeId) : Trimmed f (f.cut i) := by
  unfold cut
  split
  · rename_i p k hp _
    obtain ⟨hsize, hholds⟩ := exchange_views f p k (k + 1) []
    refine trimmed_of_holds hsize hholds fun q => ?_
    rw [children_exchange wf (wf.parent_lt hp)]
    split
    · rename_i hq
      intro c hc
      rw [mem_exchanged] at hc
      rcases hc with hc | ⟨-, hc | hc⟩
      · cases hc
      · exact hq ▸ List.mem_of_mem_take hc
      · exact hq ▸ List.mem_of_mem_drop hc
    · rw [without_nil]
      exact List.Subset.refl _
  · exact .refl f

theorem detach_legacy (h : (f.node i).ofClass = .legacy) : f.detach i = .ok (f.cut i) := by
  rw [detach, h]

/-! ### Work that comes to an end -/

/-- The work ends with a result, and only trims the forest. -/
def Ends {α : Type} (f : Forest) (done : Forest × Except Fault α) : Prop :=
  ∃ g a, done = (g, .ok a) ∧ Trimmed f g

namespace Ends

variable {α : Type} {done : Forest × Except Fault α}

theorem ok (f : Forest) (a : α) : Ends f (f, .ok a) := ⟨f, a, rfl, .refl f⟩

theorem after (t : Trimmed f g) (e : Ends g done) : Ends f done := by
  obtain ⟨h, a, hdone, ht⟩ := e
  exact ⟨h, a, hdone, t.trans ht⟩

end Ends

end Forest
end SvgTree
