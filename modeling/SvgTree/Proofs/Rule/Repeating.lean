/-
Attribute plugins that are run twice.

The plugins that edit attributes find nodes by what these hold, and edit what they find.  A node
that is not found is not edited, so it is not found the next time either, though an edit may
well make a node be found no more.  So what a second run finds was found by the first, and is as
the first run would have it: the second run changes nothing, and counts nothing.
-/
import SvgTree.Proofs.Rule.Amending
import SvgTree.Proofs.Rule.Running

namespace SvgTree

open Attributes (Editor)

namespace Forest

variable {f g : Forest} {root i : NodeId} {step : Step} {result : StepResult}
  {finds : Fields → Bool} {e : Editor}

/-- What is left of a run that is exact: it changed attributes alone, it counted the pairs of a
node and a name under which there is another value or one has come or gone, and it changes and
counts nothing when it is made again. -/
structure Exact (f g : Forest) (root : NodeId) (step : Step) (result : StepResult) : Prop where
  kept : ∀ i, (g.node i).kind = (f.node i).kind ∧ (g.node i).name = (f.node i).name ∧
    (g.node i).value = (f.node i).value ∧ (g.node i).ofClass = (f.node i).ofClass ∧
    g.parent? i = f.parent? i ∧ g.children i = f.children i
  counted : ∃ pairs : List (NodeId × String), pairs.Nodup ∧
    (∀ i n, (i, n) ∈ pairs ↔
      (g.node i).attributes.value? n ≠ (f.node i).attributes.value? n) ∧
    result.changed = pairs.length
  repeated : ∃ again, g.runStep root step = (g, .ok again) ∧ again.errors = [] ∧
    again.changed = 0

theorem Exact.of_idle (hrun : f.runStep root step = (f, .ok result)) (herrors : result.errors = [])
    (hchanged : result.changed = 0) : Exact f f root step result where
  kept _ := ⟨rfl, rfl, rfl, rfl, rfl, rfl⟩
  counted := ⟨[], List.nodup_nil, by simp, hchanged⟩
  repeated := ⟨result, hrun, herrors, hchanged⟩

theorem Edited.kept {edit : Attributes → Attributes} {l : List NodeId} (h : Edited edit l f g)
    (i : NodeId) :
    (g.node i).kind = (f.node i).kind ∧ (g.node i).name = (f.node i).name ∧
      (g.node i).value = (f.node i).value ∧ (g.node i).ofClass = (f.node i).ofClass ∧
      g.parent? i = f.parent? i ∧ g.children i = f.children i := by
  obtain ⟨m, hnode, -, -⟩ := h.node_eq i
  have hshape := h.sameShape
  rw [hnode]
  exact ⟨rfl, rfl, rfl, rfl, hshape.parent_eq i, hshape.children_eq i⟩

theorem Edited.legacyTree {edit : Attributes → Attributes} {l : List NodeId}
    (h : Edited edit l f g) (hwalk : g.walk root = f.walk root) (tree : f.LegacyTree root) :
    g.LegacyTree root := by
  refine ⟨h.sameShape.size_eq ▸ tree.root_lt, ?_, ?_, ?_⟩
  all_goals
    intro i hi
    rw [hwalk] at hi
    obtain ⟨hkind, hname, -, hclass, -⟩ := h.kept i
  · rw [hclass]
    exact tree.legacy i hi
  · rw [hkind]
    exact tree.kind i hi
  · rw [hname]
    exact tree.name i hi

/-- What is found after the edits was found before them. -/
theorem Edited.found_subset {edit : Attributes → Attributes}
    (h : Edited edit (f.found root finds) f g) (hwalk : g.walk root = f.walk root)
    (hi : i ∈ g.found root finds) : i ∈ f.found root finds := by
  by_contra hnot
  obtain ⟨hmem, hfinds⟩ := List.mem_filter.mp hi
  have hnode : g.node i = f.node i := by
    rw [node, node, h.node?_eq hnot]
  rw [hwalk] at hmem
  rw [hnode] at hfinds
  exact hnot (List.mem_filter.mpr ⟨hmem, hfinds⟩)

/-- What a plugin amends it amends once. -/
theorem Amends.exact (a : Amends root step finds e) (wf : f.WellFormed)
    (tree : f.LegacyTree root) (hrun : f.perform root step = (g, .ok result)) :
    Exact f g root step result := by
  obtain ⟨g', result', hrun', -, hchanged, hedited⟩ := a wf tree
  rw [hrun] at hrun'
  cases hrun'
  have hlt := found_lt wf tree.root_lt finds
  have hshape := hedited.sameShape
  have wg := hshape.wellFormed wf
  have hwalk : g.walk root = f.walk root :=
    walk_congr wf wg hshape.size_eq tree.root_lt fun i _ => hshape.children_eq i
  refine ⟨hedited.kept, ⟨_, nodup_amended (nodup_found wf tree.root_lt finds), ?_, hchanged⟩, ?_⟩
  · intro i n
    exact hedited.mem_amended_iff hlt
  · obtain ⟨k, again, hagain, herrors, hagain', hedited'⟩ :=
      a wg (hedited.legacyTree hwalk tree)
    have hdone : ∀ i ∈ g.found root finds,
        e.edit (g.node i).attributes = (g.node i).attributes := by
      intro i hi
      have hi := hedited.found_subset hwalk hi
      obtain ⟨m, hnode, -, hedit⟩ := hedited.node_eq i
      rw [hnode, hedit hi (hlt i hi)]
      exact e.edit_edit _
    have hnothing : amended e.edit g (g.found root finds) = [] := by
      refine List.eq_nil_iff_forall_not_mem.mpr ?_
      intro p hp
      obtain ⟨hi, hne⟩ := mem_amended.mp hp
      rw [hdone p.1 hi] at hne
      exact hne rfl
    rw [hedited'.eq_self hdone] at hagain
    rw [hnothing] at hagain'
    exact ⟨again, runStep_of_ok hagain, herrors, hagain'⟩

/-- On every reachable tree of legacy nodes whose kinds and names are text, a step that was read
and that edits attributes gives a result.  Where this has no errors the run is exact: nothing
but attributes has changed, the count is that of the pairs of a node and a name under which
there is another value or one has come or gone, and the same step once more changes nothing and
counts nothing. -/
theorem Reachable.attribute_runs_exact (hf : f.Reachable) (tree : f.LegacyTree root)
    {data : Value} (hread : Step.ofValue data = .ok step)
    (hplugin : step.plugin = .setAttributes ∨ step.plugin = .removeAttributes ∨
      step.plugin = .defaultFill) :
    ∃ g result, f.runStep root step = (g, .ok result) ∧
      (result.errors = [] → Exact f g root step result) := by
  have wf := hf.wellFormed
  have hs := Step.sound_of_ofValue hread
  obtain ⟨g, result, hrun, -⟩ := runStep_spec wf tree hs
  refine ⟨g, result, hrun, ?_⟩
  intro herrors
  have hperform := perform_of_runStep hrun herrors
  rcases amends_or_idle wf tree hs hplugin hperform with ⟨finds, e, amends⟩ | ⟨rfl, -, hidle⟩
  · exact amends.exact wf tree hperform
  · exact .of_idle hrun herrors hidle

def twoShapesCalls : List Call :=
  [.wrap (.dict [(.text "type", .text "root"), (.text "children", .list [
    .dict [(.text "name", .text "path"), (.text "attributes", .dict [
      (.text "fill", .text "red"), (.text "id", .text "p")])],
    .dict [(.text "name", .text "path")]])])]

def repaint : Value :=
  .dict [(.text "name", .text "set_attributes"), (.text "selector", .text "[fill=\"red\"]"),
    (.text "attributes", .dict [(.text "stroke", .text "none"), (.text "fill", .text "blue")])]

/-- The shape that is found gets a stroke and another colour, which are two changes, and is not
found again. -/
theorem attribute_runs_exact_of_two_shapes :
    (Forest.empty.afterAll twoShapesCalls).Reachable ∧
      (Forest.empty.afterAll twoShapesCalls).LegacyTree 0 ∧
      ∃ step g result, Step.ofValue repaint = .ok step ∧
        (Forest.empty.afterAll twoShapesCalls).runStep 0 step = (g, .ok result) ∧
        result.errors = [] ∧ result.changed = 2 ∧
        Exact (Forest.empty.afterAll twoShapesCalls) g 0 step result := by
  have reach : (Forest.empty.afterAll twoShapesCalls).Reachable :=
    ⟨twoShapesCalls, by decide +kernel, rfl⟩
  have tree : (Forest.empty.afterAll twoShapesCalls).LegacyTree 0 := by decide +kernel
  have read : Step.ofValue repaint = .ok
      { plugin := .setAttributes, selector := .text "[fill=\"red\"]",
        attributes := .dict [(.text "stroke", .text "none"), (.text "fill", .text "blue")] } := rfl
  have reported : ((Forest.empty.afterAll twoShapesCalls).runStep 0
      { plugin := .setAttributes, selector := .text "[fill=\"red\"]",
        attributes := .dict [(.text "stroke", .text "none"),
          (.text "fill", .text "blue")] }).2.toOption.map
        (fun result => (result.errors, result.changed)) = some ([], 2) := by
    decide +kernel
  obtain ⟨g, result, hrun, hexact⟩ := reach.attribute_runs_exact tree read (.inl rfl)
  rw [hrun] at reported
  obtain ⟨herrors, hchanged⟩ := Prod.mk.inj (Option.some.inj reported)
  exact ⟨reach, tree, _, g, result, read, hrun, herrors, hchanged, hexact herrors⟩

end Forest
end SvgTree
