/-
How far a selector bounds what a step does.

The plugins that edit attributes and the one that removes elements work on what their selector
finds, and a node that does not match is left alone.  The one exception is the empty text: to
the plugin that removes attributes it is no selector at all, so that every element loses the
attributes, although the empty text matches nothing.
-/
import SvgTree.Proofs.Rule.Amending
import SvgTree.Proofs.Rule.Detaching
import SvgTree.Proofs.Rule.Plugins

namespace SvgTree

open Selector (parse)

namespace Forest

variable {f g : Forest} {root i : NodeId} {l : List NodeId} {step : Step} {s : String}

theorem matched_of_select {selector : Value} {found : List NodeId} (hselector : selector = .text s)
    (h : f.select root selector = .ok found) (hi : i ∈ found) :
    (parse s).test (f.node i).toFields = .ok true := by
  rw [select, hselector, Value.orElse_empty_text] at h
  split at h
  · rename_i hs
    cases hs
    exact (of_mem_matching h hi).2
  · cases h

/-! ### One plugin after the other -/

theorem attributes_of_within {found : List NodeId} (w : Within found f g)
    (hfound : ∀ i ∈ found, (parse s).test (f.node i).toFields = .ok true)
    (hi : (parse s).test (f.node i).toFields ≠ .ok true) :
    (g.node i).attributes = (f.node i).attributes := by
  rw [w.node_eq fun hmem => hi (hfound i hmem)]

theorem setAttributesOf_bounded (hselector : step.selector = .text s)
    (hi : (parse s).test (f.node i).toFields ≠ .ok true) :
    ((f.setAttributesOf root step).1.node i).attributes = (f.node i).attributes := by
  unfold setAttributesOf
  split
  · rfl
  · rfl
  · rename_i found _ hfound
    exact attributes_of_within (within_setEach _ found f 0)
      (fun j hj => matched_of_select hselector hfound hj) hi

theorem removeAttributes_bounded (hselector : step.selector = .text s) (hs : s ≠ "")
    (hi : (parse s).test (f.node i).toFields ≠ .ok true) :
    ((f.removeAttributes root step).1.node i).attributes = (f.node i).attributes := by
  have htruthy : step.selector.isTruthy = true := by
    rw [hselector, Value.isTruthy]
    simp [hs]
  simp only [removeAttributes, htruthy, if_true]
  split
  · rfl
  · rename_i found hfound
    exact attributes_of_within (within_eraseEach _ found f 0)
      (fun j hj => matched_of_select hselector hfound hj) hi

theorem removeAttributes_unbounded (wf : f.WellFormed) (tree : f.LegacyTree root)
    (hselector : step.selector = .text "") {listed : List String}
    (hlisted : step.attributes = .list (listed.map .text)) (i : NodeId) :
    ((f.removeAttributes root step).1.node i).attributes.entries =
      if i ∈ f.walk root ∧ (f.node i).isElement = true then
        (f.node i).attributes.entries.filter fun a => !listed.contains a.name
      else (f.node i).attributes.entries := by
  have htruthy : step.selector.isTruthy = false := by
    rw [hselector]
    rfl
  have hnames : listedNames step.attributes = .ok (listed.map .text) := by
    rw [hlisted]
    rfl
  have hfound := elements_eq (f := f) fun j hj => Value.isHashable_of_text (tree.kind j hj)
  have hlt : ∀ j ∈ (f.walk root).filter fun j => (f.node j).isElement, j < f.size := fun j hj =>
    wf.lt_of_mem_walk tree.root_lt (List.mem_filter.mp hj).1
  obtain ⟨g, hrun, e⟩ :=
    eraseEach_edits hnames hlt ((wf.nodup_walk tree.root_lt).filter _) 0
  obtain ⟨m, hnode, hother, hedit⟩ := e.node_eq i
  simp only [removeAttributes, htruthy, Bool.false_eq_true, if_false, hfound, hrun]
  rw [hnode]
  by_cases hi : i ∈ (f.walk root).filter fun j => (f.node j).isElement
  · rw [if_pos (List.mem_filter.mp hi), hedit hi (hlt i hi)]
    exact Attributes.entries_foldl_erase _ listed
  · rw [if_neg (fun h => hi (List.mem_filter.mpr h)), hother hi]

theorem removeElements_bounded (wf : f.WellFormed) (hselector : step.selector = .text s)
    (hi : (f.removeElements root step).1.parent? i ≠ f.parent? i ∨
      ∃ p, i ∈ f.children p ∧ i ∉ (f.removeElements root step).1.children p) :
    i ≠ root ∧ (parse s).test (f.node i).toFields = .ok true := by
  have unmoved (h : f.parent? i ≠ f.parent? i ∨ ∃ p, i ∈ f.children p ∧ i ∉ f.children p) :
      False := by
    rcases h with h | ⟨p, hp, hnot⟩
    · exact h rfl
    · exact hnot hp
  unfold removeElements at hi
  split at hi
  · exact (unmoved hi).elim
  · exact (unmoved hi).elim
  · rename_i found _ hfound
    obtain ⟨gone, hgone, hsub⟩ := cutOut_detachAll wf root (found.filter (· != root)) 0 []
    have hmem := List.mem_filter.mp (hsub ((hgone.moved_iff i).mpr hi))
    exact ⟨by simpa using hmem.2, matched_of_select hselector hfound hmem.1⟩

/-- Whatever comes of a step that was read with a selector, on any reachable forest: a node
that does not match is not edited, and one that is taken out matched and is not the root.
Where attributes are removed this takes a selector other than the empty text; with that one
every element of a tree of legacy nodes loses the attributes that are named, and no other
node does. -/
theorem Reachable.selector_bounds (hf : f.Reachable) (root : NodeId) {data : Value}
    (hread : Step.ofValue data = .ok step) (hselector : step.selector = .text s) :
    (step.plugin = .setAttributes → ∀ i, (parse s).test (f.node i).toFields ≠ .ok true →
      ((f.runStep root step).1.node i).attributes = (f.node i).attributes) ∧
    (step.plugin = .removeAttributes → s ≠ "" →
      ∀ i, (parse s).test (f.node i).toFields ≠ .ok true →
        ((f.runStep root step).1.node i).attributes = (f.node i).attributes) ∧
    (step.plugin = .removeAttributes → s = "" → f.LegacyTree root →
      ∃ listed : List String, step.attributes = .list (listed.map .text) ∧
        ∀ i, ((f.runStep root step).1.node i).attributes.entries =
          if i ∈ f.walk root ∧ (f.node i).isElement = true then
            (f.node i).attributes.entries.filter fun a => !listed.contains a.name
          else (f.node i).attributes.entries) ∧
    (step.plugin = .removeElements → ∀ i,
      ((f.runStep root step).1.parent? i ≠ f.parent? i ∨
        ∃ p, i ∈ f.children p ∧ i ∉ (f.runStep root step).1.children p) →
      i ≠ root ∧ (parse s).test (f.node i).toFields = .ok true) := by
  have sound := Step.sound_of_ofValue hread
  rw [runStep_fst]
  refine ⟨fun hplugin i hi => ?_, fun hplugin hs i hi => ?_, fun hplugin hs tree => ?_,
    fun hplugin i hi => ?_⟩
  · rw [perform, hplugin]
    exact setAttributesOf_bounded hselector hi
  · rw [perform, hplugin]
    exact removeAttributes_bounded hselector hs hi
  · have hgiven : step.attributes ≠ .null := sound.attributes_given (by rw [hplugin]; decide)
    obtain ⟨listed, hlisted⟩ := (sound.names (by rw [hplugin]; decide)).resolve_left hgiven
    subst hs
    refine ⟨listed, hlisted, fun i => ?_⟩
    rw [perform, hplugin]
    exact removeAttributes_unbounded hf.wellFormed tree hselector hlisted i
  · rw [perform, hplugin] at hi
    exact removeElements_bounded hf.wellFormed hselector hi

def takeOut : Value :=
  .dict [(.text "name", .text "remove_elements"), (.text "selector", .text "a,c")]

/-- Under a root the nodes called `a` and `c` are taken out.  The one that `a` holds stays with
it, and so it need not match. -/
theorem selector_bounds_of_rooted :
    (Forest.empty.afterAll rootedCalls).Reachable ∧
      ∃ step, Step.ofValue takeOut = .ok step ∧ step.selector = .text "a,c" ∧
        (∃ p, 2 ∈ (Forest.empty.afterAll rootedCalls).children p ∧
          2 ∉ ((Forest.empty.afterAll rootedCalls).runStep 0 step).1.children p) ∧
        (parse "a,c").test ((Forest.empty.afterAll rootedCalls).node 2).toFields = .ok true ∧
        ((parse "a,c").test ((Forest.empty.afterAll rootedCalls).node 3).toFields).toOption =
          some false ∧
        ((Forest.empty.afterAll rootedCalls).runStep 0 step).1.parent? 3 = some 1 := by
  have reach : (Forest.empty.afterAll rootedCalls).Reachable :=
    ⟨rootedCalls, by decide +kernel, rfl⟩
  have moved : 2 ∈ (Forest.empty.afterAll rootedCalls).children 0 ∧
      2 ∉ ((Forest.empty.afterAll rootedCalls).runStep 0
        { plugin := .removeElements, selector := .text "a,c" }).1.children 0 := by
    decide +kernel
  have read : Step.ofValue takeOut =
      .ok { plugin := .removeElements, selector := .text "a,c" } := rfl
  obtain ⟨-, -, -, bounded⟩ := reach.selector_bounds 0 read rfl
  exact ⟨reach, _, read, rfl, ⟨0, moved⟩, (bounded rfl 2 (.inr ⟨0, moved⟩)).2, by decide +kernel,
    by decide +kernel⟩

def filledCalls : List Call :=
  [.wrap (.dict [(.text "type", .text "root"), (.text "children", .list [
    .dict [(.text "name", .text "path"),
      (.text "attributes", .dict [(.text "fill", .text "red")])]])])]

/-- A step as a rule lists it, that removes the colour and is given the empty selector. -/
def wipe : Value :=
  .dict [(.text "name", .text "remove_attributes"), (.text "selector", .text ""),
    (.text "attributes", .list [.text "fill"])]

/-- The shape does not match the empty selector, and loses its colour. -/
theorem empty_selector_wipes :
    (Forest.empty.afterAll filledCalls).Reachable ∧
      (Forest.empty.afterAll filledCalls).LegacyTree 0 ∧
      ∃ step, Step.ofValue wipe = .ok step ∧ step.selector = .text "" ∧
        ((parse "").test ((Forest.empty.afterAll filledCalls).node 1).toFields).toOption =
          some false ∧
        ((Forest.empty.afterAll filledCalls).node 1).attributes.toPairs = [("fill", "red")] ∧
        (((Forest.empty.afterAll filledCalls).runStep 0 step).1.node 1).attributes.toPairs =
          [] := by
  refine ⟨⟨filledCalls, by decide +kernel, rfl⟩, by decide +kernel, _, rfl, rfl, ?_⟩
  decide +kernel

end Forest
end SvgTree
