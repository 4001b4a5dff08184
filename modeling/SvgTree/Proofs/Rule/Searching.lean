/-
What a search from a root comes to.

To tell an element, the kind of a node has to be looked up, which fails for a list or a
mapping; a selector of which nothing is of the grammar looks nothing up.  So from the root of a
tree of legacy nodes a search gives the nodes that match, in document order, unless something of
the selector is of the grammar and some kind cannot be looked up.  Then it fails, and a plugin
that begins with the search has changed nothing.
-/
import SvgTree.Proofs.Rule.Plugins
import SvgTree.Proofs.Selector.Support

namespace SvgTree

open Selector (parse)

namespace Selector

variable {s : Selector} {n : Fields}

theorem test_unsupported (h : s.isSupported = false) : s.test n = .ok (s.accepts n) := by
  simp [test, h]

theorem test_unhashable (h : s.isSupported = true) (hn : n.kind.isHashable = false) :
    s.test n = .error (.unhashable n.kind) := by
  simp [test, h, hn]

end Selector

namespace Forest

variable {f g : Forest} {root i : NodeId} {l : List NodeId} {s : Selector} {step : Step}
  {result : StepResult}

/-- All nodes of the tree are of the legacy class. -/
structure AllLegacy (f : Forest) (root : NodeId) : Prop where
  root_lt : root < f.size
  legacy : ∀ i ∈ f.walk root, (f.node i).ofClass = .legacy

instance (f : Forest) (root : NodeId) : Decidable (f.AllLegacy root) :=
  decidable_of_iff (root < f.size ∧ ∀ i ∈ f.walk root, (f.node i).ofClass = .legacy)
    ⟨fun ⟨hr, hl⟩ => ⟨hr, hl⟩, fun h => ⟨h.root_lt, h.legacy⟩⟩

theorem LegacyTree.allLegacy (tree : f.LegacyTree root) : f.AllLegacy root :=
  ⟨tree.root_lt, tree.legacy⟩

/-- The selector can be tested on every node of the tree: all kinds can be looked up, or none
has to be. -/
def Searchable (f : Forest) (root : NodeId) (s : Selector) : Prop :=
  s.isSupported = true → ∀ i ∈ f.walk root, (f.node i).kind.isHashable = true

instance (f : Forest) (root : NodeId) (s : Selector) : Decidable (f.Searchable root s) :=
  inferInstanceAs (Decidable (_ → _))

theorem LegacyTree.searchable (tree : f.LegacyTree root) (s : Selector) : f.Searchable root s := by
  intro _ i hi
  exact Value.isHashable_of_text (tree.kind i hi)

theorem Searchable.test (h : f.Searchable root s) (hi : i ∈ f.walk root) :
    s.test (f.node i).toFields = .ok (s.accepts (f.node i).toFields) := by
  cases hs : s.isSupported with
  | false => exact Selector.test_unsupported hs
  | true => exact Selector.test_eq (h hs i hi) s

theorem Searchable.subset (h : f.Searchable root s) (hwalk : g.walk root ⊆ f.walk root)
    (hkind : ∀ i, (g.node i).kind = (f.node i).kind) : g.Searchable root s := by
  intro hs i hi
  rw [hkind]
  exact h hs i (hwalk hi)

theorem AllLegacy.subset (tree : f.AllLegacy root) (hsize : g.size = f.size)
    (hwalk : g.walk root ⊆ f.walk root)
    (hclass : ∀ i, (g.node i).ofClass = (f.node i).ofClass) : g.AllLegacy root := by
  refine ⟨hsize ▸ tree.root_lt, ?_⟩
  intro i hi
  rw [hclass]
  exact tree.legacy i (hwalk hi)

/-- A supported selector fails at the first node whose kind cannot be looked up. -/
theorem matching_fails (hs : s.isSupported = true)
    (h : ∃ i ∈ l, (f.node i).kind.isHashable = false) :
    ∃ i ∈ l, (f.node i).kind.isHashable = false ∧
      f.matching s l = .error (.unhashable (f.node i).kind) := by
  induction l with
  | nil => simp at h
  | cons i rest ih =>
    cases hi : (f.node i).kind.isHashable with
    | false =>
      refine ⟨i, List.mem_cons_self, hi, ?_⟩
      rw [matching, Selector.test_unhashable hs hi]
    | true =>
      have hrest : ∃ j ∈ rest, (f.node j).kind.isHashable = false := by
        simpa [hi] using h
      obtain ⟨j, hj, hkind, hfails⟩ := ih hrest
      refine ⟨j, List.mem_cons_of_mem _ hj, hkind, ?_⟩
      rw [matching, Selector.test_eq hi, hfails]

/-! ### From the root of a tree -/

theorem select_text (wf : f.WellFormed) (tree : f.AllLegacy root) (s : String) :
    f.select root (.text s) = f.queryAll root (parse s) := by
  rw [select, tree.legacy root (wf.mem_walk_self tree.root_lt), Value.orElse_empty_text]

theorem Searchable.select_eq {s : String} (h : f.Searchable root (parse s)) (wf : f.WellFormed)
    (tree : f.AllLegacy root) :
    f.select root (.text s) = .ok (f.accepted (parse s) (f.walk root)) := by
  rw [select_text wf tree]
  exact matching_of_tests fun i hi => h.test hi

/-- Of a tree that cannot be searched some node has a kind that cannot be looked up, and that
is what the search fails with. -/
theorem select_unsearchable {s : String} (wf : f.WellFormed) (tree : f.AllLegacy root)
    (h : ¬ f.Searchable root (parse s)) :
    ∃ i ∈ f.walk root, (f.node i).kind.isHashable = false ∧
      f.select root (.text s) = .error (.unhashable (f.node i).kind) := by
  rw [select_text wf tree]
  unfold Searchable at h
  push Not at h
  obtain ⟨hs, i, hi, hkind⟩ := h
  exact matching_fails hs ⟨i, hi, by simpa using hkind⟩

theorem runStep_of_ok (h : f.perform root step = (g, .ok result)) :
    f.runStep root step = (g, .ok result) := by
  rw [runStep, h]

theorem perform_of_runStep (hrun : f.runStep root step = (g, .ok result))
    (herrors : result.errors = []) : f.perform root step = (g, .ok result) := by
  unfold runStep at hrun
  split at hrun
  · split at hrun
    · cases hrun
      cases herrors
    · cases hrun
  · exact hrun

/-- What cannot be looked up is no refusal: the step fails, and the forest is as the plugin
left it. -/
theorem runStep_of_unhashable {kind : Value}
    (h : f.perform root step = (g, .error (.unhashable kind))) :
    f.runStep root step = (g, .error (.unhashable kind)) := by
  rw [runStep, h]
  rfl

end Forest
end SvgTree
