/-
Chains of parents, and the shape that every forest keeps.

`Climbs f i l` is the climb from `i` by parents without a bound: it ends at a node that has
no parent, and `l` lists the nodes passed.  The bounded `lineage` is that list in a forest
that is `WellFormed`, because no climb passes a node twice.
-/
import Mathlib.Data.List.Nodup
import Mathlib.Data.List.Perm.Subperm
import SvgTree.Proofs.Tree.Views

namespace SvgTree
namespace Forest

/-- Climbing from a node by parents until there is none: the nodes passed, in order. -/
inductive Climbs (f : Forest) : NodeId → List NodeId → Prop where
  | top {i : NodeId} : f.parent? i = none → Climbs f i [i]
  | up {i p : NodeId} {l : List NodeId} :
    f.parent? i = some p → Climbs f p l → Climbs f i (i :: l)

/-- `a` is the node itself or stands on its chain of parents. -/
def Above (f : Forest) (a i : NodeId) : Prop := ∃ l, f.Climbs i l ∧ a ∈ l

namespace Climbs

variable {f g : Forest} {i j : NodeId} {l k : List NodeId}

theorem head_mem (h : f.Climbs i l) : i ∈ l := by
  cases h with
  | top _ => exact List.mem_singleton_self i
  | up _ _ => exact List.mem_cons_self

theorem unique (h : f.Climbs i l) (h' : f.Climbs i k) : l = k := by
  induction h generalizing k with
  | top hp =>
    cases h' with
    | top _ => rfl
    | up hp' _ => rw [hp] at hp'; exact absurd hp' (by simp)
  | up hp _ ih =>
    cases h' with
    | top hp' => rw [hp] at hp'; exact absurd hp' (by simp)
    | up hp' rest =>
      rw [hp] at hp'
      cases hp'
      rw [ih rest]

theorem rest_of_mem (h : f.Climbs i l) (hj : j ∈ l) : ∃ k, f.Climbs j k ∧ k <:+ l := by
  induction h with
  | top hp =>
    rw [List.mem_singleton] at hj
    subst hj
    exact ⟨_, .top hp, List.suffix_refl _⟩
  | up hp rest ih =>
    rcases List.mem_cons.mp hj with rfl | hj
    · exact ⟨_, .up hp rest, List.suffix_refl _⟩
    · obtain ⟨k, hk, hs⟩ := ih hj
      exact ⟨k, hk, hs.trans (List.suffix_cons _ _)⟩

/-- No climb from the parent of a node comes back to the node. -/
theorem notMem_of_parent? {c p : NodeId} (hp : f.parent? c = some p) (h : f.Climbs p l) :
    c ∉ l := by
  intro hc
  obtain ⟨k, hk, hs⟩ := h.rest_of_mem hc
  have hlen := hs.length_le
  rw [hk.unique (.up hp h), List.length_cons] at hlen
  omega

theorem nodup (h : f.Climbs i l) : l.Nodup := by
  induction h with
  | top _ => exact List.nodup_singleton _
  | up hp rest ih => exact List.nodup_cons.mpr ⟨rest.notMem_of_parent? hp, ih⟩

theorem congr (h : f.Climbs i l) (hg : ∀ j ∈ l, g.parent? j = f.parent? j) :
    g.Climbs i l := by
  induction h with
  | top hp => exact .top (by rw [hg _ (List.mem_singleton_self _), hp])
  | up hp _ ih =>
    exact .up (by rw [hg _ List.mem_cons_self, hp])
      (ih fun j hj => hg j (List.mem_cons_of_mem _ hj))

/-- Where parents along a climb are kept or taken away, there is still a climb. -/
theorem of_cut (h : f.Climbs i l)
    (hg : ∀ j ∈ l, g.parent? j = f.parent? j ∨ g.parent? j = none) : ∃ k, g.Climbs i k := by
  induction h with
  | top hp =>
    refine ⟨_, .top ?_⟩
    rcases hg _ (List.mem_singleton_self _) with h | h
    · rw [h, hp]
    · exact h
  | up hp _ ih =>
    obtain ⟨k, hk⟩ := ih fun j hj => hg j (List.mem_cons_of_mem _ hj)
    rcases hg _ List.mem_cons_self with h | h
    · exact ⟨_, .up (h.trans hp) hk⟩
    · exact ⟨_, .top h⟩

/-- Where parents are kept, taken away or changed to one node that climbs, all still climb. -/
theorem of_rehung {host : NodeId} (hhost : ∃ k, g.Climbs host k) (h : f.Climbs i l)
    (hg : ∀ j, g.parent? j = f.parent? j ∨ g.parent? j = none ∨ g.parent? j = some host) :
    ∃ k, g.Climbs i k := by
  obtain ⟨kh, hkh⟩ := hhost
  induction h with
  | @top i hp =>
    rcases hg i with h | h | h
    · exact ⟨_, .top (h.trans hp)⟩
    · exact ⟨_, .top h⟩
    · exact ⟨_, .up h hkh⟩
  | @up i p l hp _ ih =>
    obtain ⟨k, hk⟩ := ih
    rcases hg i with h | h | h
    · exact ⟨_, .up (h.trans hp) hk⟩
    · exact ⟨_, .top h⟩
    · exact ⟨_, .up h hkh⟩

end Climbs

theorem not_above_of_parent? {f : Forest} {c p : NodeId} (hp : f.parent? c = some p) :
    ¬ f.Above c p := fun ⟨_, h, hc⟩ => h.notMem_of_parent? hp hc

/-- The shape that every forest keeps: parents exist, children have their holder as parent
and are held once, and every climb ends. -/
structure WellFormed (f : Forest) : Prop where
  parent_lt : ∀ {i p : NodeId}, f.parent? i = some p → p < f.size
  held : ∀ {p c : NodeId}, c ∈ f.children p → f.parent? c = some p
  once : ∀ p : NodeId, (f.children p).Nodup
  grounded : ∀ i : NodeId, ∃ l, f.Climbs i l

namespace WellFormed

variable {f g : Forest} {i j : NodeId} {l : List NodeId}

theorem empty : Forest.empty.WellFormed where
  parent_lt h := by simp [parent?, node?, Forest.empty] at h
  held h := by simp [children, node?, Forest.empty] at h
  once p := by simp [children, node?, Forest.empty]
  grounded i := ⟨[i], .top (by simp [parent?, node?, Forest.empty])⟩

theorem congr (wf : f.WellFormed) (hs : g.size = f.size) (hp : ∀ i, g.parent? i = f.parent? i)
    (hc : ∀ i, g.children i = f.children i) : g.WellFormed where
  parent_lt h := by rw [hs]; exact wf.parent_lt (by rw [← hp, h])
  held h := by rw [hc] at h; rw [hp]; exact wf.held h
  once p := by rw [hc]; exact wf.once p
  grounded i := by
    obtain ⟨l, hl⟩ := wf.grounded i
    exact ⟨l, hl.congr fun j _ => hp j⟩

theorem not_above_of_mem_children (wf : f.WellFormed) {p c : NodeId} (h : c ∈ f.children p) :
    ¬ f.Above c p :=
  not_above_of_parent? (wf.held h)

theorem child_lt (wf : f.WellFormed) {p c : NodeId} (h : c ∈ f.children p) : c < f.size :=
  lt_size_of_parent? (wf.held h)

theorem eq_of_mem_children (wf : f.WellFormed) {p q c : NodeId} (hp : c ∈ f.children p)
    (hq : c ∈ f.children q) : p = q :=
  Option.some.inj ((wf.held hp).symm.trans (wf.held hq))

theorem lt_size_of_climbs (wf : f.WellFormed) (hi : i < f.size) (h : f.Climbs i l)
    (hj : j ∈ l) : j < f.size := by
  induction h with
  | top _ => rw [List.mem_singleton.mp hj]; exact hi
  | up hp _ ih =>
    rcases List.mem_cons.mp hj with rfl | hj
    · exact hi
    · exact ih (wf.parent_lt hp) hj

theorem length_le_size (wf : f.WellFormed) (hi : i < f.size) (h : f.Climbs i l) :
    l.length ≤ f.size := by
  have hsub : l ⊆ List.range f.size := fun j hj =>
    List.mem_range.mpr (wf.lt_size_of_climbs hi h hj)
  have hlen := (List.subperm_of_subset h.nodup hsub).length_le
  rwa [List.length_range] at hlen

end WellFormed

theorem lineageFrom_eq {f : Forest} {i : NodeId} {l : List NodeId} (h : f.Climbs i l) :
    ∀ {fuel : Nat}, l.length ≤ fuel → f.lineageFrom fuel i = l := by
  induction h with
  | @top i hp =>
    intro fuel hf
    cases fuel with
    | zero => simp at hf
    | succ fuel => simp [lineageFrom, hp]
  | @up i p l hp _ ih =>
    intro fuel hf
    cases fuel with
    | zero => simp at hf
    | succ fuel =>
      rw [List.length_cons] at hf
      simp [lineageFrom, hp, ih (Nat.le_of_succ_le_succ hf)]

namespace WellFormed

variable {f : Forest} {i : NodeId} {l : List NodeId}

theorem lineage_eq (wf : f.WellFormed) (hi : i < f.size) (h : f.Climbs i l) :
    f.lineage i = l :=
  lineageFrom_eq h (wf.length_le_size hi h)

theorem isAncestor_iff (wf : f.WellFormed) (hi : i < f.size) {a : NodeId} :
    f.isAncestor a i = true ↔ f.Above a i := by
  obtain ⟨l, hl⟩ := wf.grounded i
  unfold isAncestor
  rw [wf.lineage_eq hi hl, List.contains_iff_mem]
  constructor
  · exact fun ha => ⟨l, hl, ha⟩
  · rintro ⟨k, hk, ha⟩
    rw [hl.unique hk]
    exact ha

end WellFormed
end Forest
end SvgTree
