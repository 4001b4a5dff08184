/-
Attributes that are set on what matched before.

The plugin that sets attributes looks for nodes once, before it edits any of them.  So a node
that matched then has every attribute of the step in the end, although it may match no more:
those that were there with their new values in their old places, and the others behind them in
the order of the step.  No other node is touched.
-/
import SvgTree.Proofs.Rule.Removing
import SvgTree.Proofs.Rule.Repeating

namespace SvgTree

open Value (textEntry)
open Selector (parse)
open Attributes (setter)

namespace Forest

variable {f g : Forest} {root i : NodeId} {step : Step} {s : String}

theorem setAttributesOf_unsearchable (wf : f.WellFormed) (tree : f.AllLegacy root)
    (hs : ¬ f.Searchable root (parse s)) (hselector : step.selector = .text s) :
    ∃ i ∈ f.walk root, (f.node i).kind.isHashable = false ∧
      f.setAttributesOf root step = (f, .error (.unhashable (f.node i).kind)) := by
  obtain ⟨i, hi, hkind, hfails⟩ := select_unsearchable wf tree hs
  refine ⟨i, hi, hkind, ?_⟩
  rw [setAttributesOf, hselector, hfails]

theorem exists_given {pairs : List (String × String)} (h : ∀ p ∈ pairs, Text.strip p.1 ≠ "") :
    ∃ given : List Attribute, pairs = given.map Attribute.pair := by
  refine (Attribute.pairs_cases pairs).resolve_right ?_
  intro hblank
  obtain ⟨given, name, value, rest, rfl, hname⟩ := hblank
  exact h (name, value) (by simp) (Text.strip_eq_empty_iff.mpr hname)

/-- What the attributes of a node are when those of a step have been set on it. -/
structure Painted (m k : Attributes) (pairs : List (String × String)) : Prop where
  given : ∀ p ∈ pairs, k.value? p.1 = some p.2
  others : ∀ n, n ∉ pairs.map Prod.fst → k.value? n = m.value? n
  names : k.names = m.names ++ (pairs.map Prod.fst).filter fun n => !m.names.contains n

theorem painted_setter {given : List Attribute} (distinct : (given.map Attribute.name).Nodup)
    (m : Attributes) :
    Painted m ((setter given distinct).edit m) (given.map Attribute.pair) where
  given p hp := by
    obtain ⟨a, ha, rfl⟩ := List.mem_map.mp hp
    exact Attributes.value?_foldl_insert_of_mem distinct ha
  others n hn := by
    rw [Attribute.map_fst_pair] at hn
    exact Attributes.value?_foldl_insert_of_notMem hn
  names := by
    rw [Attribute.map_fst_pair]
    exact Attributes.names_foldl_insert distinct

/-- What a run leaves: attributes were set on the nodes that matched before it and nowhere else,
and there is a warning just when there were none. -/
structure SetOnMatches (f g : Forest) (root : NodeId) (s : String)
    (pairs : List (String × String)) (result : StepResult) : Prop where
  errors_eq : result.errors = []
  matched : ∀ i ∈ f.walk root, (parse s).test (f.node i).toFields = .ok true →
    g.node i = { f.node i with attributes := (g.node i).attributes } ∧
      Painted (f.node i).attributes (g.node i).attributes pairs
  others : ∀ i, ¬ (i ∈ f.walk root ∧ (parse s).test (f.node i).toFields = .ok true) →
    g.node? i = f.node? i
  quiet : (∃ i ∈ f.walk root, (parse s).test (f.node i).toFields = .ok true) →
    result.warnings = []
  warned : (∀ i ∈ f.walk root, (parse s).test (f.node i).toFields ≠ .ok true) →
    result.warnings = ["Selector '" ++ s ++ "' matched no elements"]

theorem Searchable.mem_accepted_iff (h : f.Searchable root (parse s)) :
    i ∈ f.accepted (parse s) (f.walk root) ↔
      i ∈ f.walk root ∧ (parse s).test (f.node i).toFields = .ok true := by
  rw [mem_accepted]
  refine and_congr_right fun hi => ?_
  rw [h.test hi, Except.ok.injEq]

/-- Where the tree can be searched the plugin sets attributes on what matches. -/
theorem setAttributesOf_spec (wf : f.WellFormed) (tree : f.AllLegacy root)
    (hsearch : f.Searchable root (parse s)) (hselector : step.selector = .text s)
    {given : List Attribute} (hgiven : step.attributes = .dict (given.map Attribute.entry))
    (distinct : (given.map Attribute.name).Nodup) :
    ∃ g result, f.setAttributesOf root step = (g, .ok result) ∧
      SetOnMatches f g root s (given.map Attribute.pair) result := by
  have hselect : f.select root step.selector = .ok (f.accepted (parse s) (f.walk root)) := by
    rw [hselector]
    exact hsearch.select_eq wf tree
  have hlt := found_lt wf tree.root_lt (parse s).accepts
  obtain ⟨g, result, hrun, herrors, -, hwarnings, hedited⟩ :=
    setAttributesOf_edits hselect hgiven distinct hlt (nodup_found wf tree.root_lt _)
  refine ⟨g, result, hrun, herrors, ?_, ?_, ?_, ?_⟩
  · intro i hi htest
    have hmem := hsearch.mem_accepted_iff.mpr ⟨hi, htest⟩
    obtain ⟨m, hnode, -, hedit⟩ := hedited.node_eq i
    have hpainted := painted_setter distinct (f.node i).attributes
    rw [← hedit hmem (hlt i hmem)] at hpainted
    rw [hnode]
    exact ⟨rfl, hpainted⟩
  · intro i hi
    exact hedited.node?_eq fun hmem => hi (hsearch.mem_accepted_iff.mp hmem)
  · intro hsome
    obtain ⟨i, hi⟩ := hsome
    rw [hwarnings, if_neg (List.ne_nil_of_mem (hsearch.mem_accepted_iff.mpr hi))]
  · intro hnone
    have hnil : f.accepted (parse s) (f.walk root) = [] := by
      refine List.eq_nil_iff_forall_not_mem.mpr ?_
      intro i hi
      obtain ⟨hwalk, htest⟩ := hsearch.mem_accepted_iff.mp hi
      exact hnone i hwalk htest
    rw [hwarnings, if_pos hnil, nothingMatched, hselector]
    rfl

/-- On every reachable tree of legacy nodes that its selector can be tested on, a step that was
read and that sets attributes, none of them of a blank name, sets them all on the nodes that
match in the tree as it is before the run, and on no other.  Of these nodes attributes that
are there keep their places, those of other names keep their values, and the others come behind
them in the order of the step.  There is a warning just when nothing matches.  On a tree that
the selector cannot be tested on the step fails and leaves everything as it was. -/
theorem Reachable.attributes_set (hf : f.Reachable) (tree : f.AllLegacy root) {data : Value}
    (hread : Step.ofValue data = .ok step) (hplugin : step.plugin = .setAttributes) :
    ∃ (s : String) (pairs : List (String × String)), step.selector = .text s ∧
      step.attributes = .dict (pairs.map textEntry) ∧ (pairs.map Prod.fst).Nodup ∧
      ((∀ p ∈ pairs, Text.strip p.1 ≠ "") →
        (f.Searchable root (parse s) → ∃ g result,
          f.runStep root step = (g, .ok result) ∧ SetOnMatches f g root s pairs result) ∧
        (¬ f.Searchable root (parse s) → ∃ i ∈ f.walk root,
          (f.node i).kind.isHashable = false ∧
            f.runStep root step = (f, .error (.unhashable (f.node i).kind)))) := by
  have wf := hf.wellFormed
  have hs := Step.sound_of_ofValue hread
  obtain ⟨s, hselector⟩ := hs.selector.resolve_left (hs.selector_given (by rw [hplugin]; decide))
  obtain ⟨pairs, hpairs, hdistinct⟩ := hs.settings hplugin
  have hperform : f.perform root step = f.setAttributesOf root step := by
    rw [perform, hplugin]
  refine ⟨s, pairs, hselector, hpairs, hdistinct, ?_⟩
  intro hvisible
  obtain ⟨given, rfl⟩ := exists_given hvisible
  constructor
  · intro hsearch
    rw [Attribute.map_textEntry] at hpairs
    rw [Attribute.map_fst_pair] at hdistinct
    obtain ⟨g, result, hrun, hset⟩ :=
      setAttributesOf_spec wf tree hsearch hselector hpairs hdistinct
    exact ⟨g, result, runStep_of_ok (hperform.trans hrun), hset⟩
  · intro hsearch
    obtain ⟨i, hi, hkind, hfails⟩ := setAttributesOf_unsearchable wf tree hsearch hselector
    exact ⟨i, hi, hkind, runStep_of_unhashable (hperform.trans hfails)⟩

/-- The shape that has the first colour gets the other one in its place and a stroke behind all
that it had, though the stroke is set first. -/
theorem attributes_set_of_two_shapes :
    (Forest.empty.afterAll twoShapesCalls).Reachable ∧
      (Forest.empty.afterAll twoShapesCalls).AllLegacy 0 ∧
      ∃ step g result, Step.ofValue repaint = .ok step ∧ step.plugin = .setAttributes ∧
        (Forest.empty.afterAll twoShapesCalls).runStep 0 step = (g, .ok result) ∧
        result.warnings = [] ∧ (g.node 1).attributes.names = ["fill", "id", "stroke"] ∧
        (g.node 1).attributes.value? "fill" = some "blue" ∧
        (g.node 1).attributes.value? "id" = some "p" ∧
        g.node? 2 = (Forest.empty.afterAll twoShapesCalls).node? 2 := by
  have reach : (Forest.empty.afterAll twoShapesCalls).Reachable :=
    ⟨twoShapesCalls, by decide +kernel, rfl⟩
  have tree : (Forest.empty.afterAll twoShapesCalls).AllLegacy 0 := by decide +kernel
  have search : (Forest.empty.afterAll twoShapesCalls).Searchable 0
      (parse "[fill=\"red\"]") := by decide +kernel
  have read : Step.ofValue repaint = .ok
      { plugin := .setAttributes, selector := .text "[fill=\"red\"]",
        attributes := .dict ([("stroke", "none"), ("fill", "blue")].map textEntry) } := rfl
  have walk : 1 ∈ (Forest.empty.afterAll twoShapesCalls).walk 0 := by decide +kernel
  have matched : (parse "[fill=\"red\"]").accepts
      ((Forest.empty.afterAll twoShapesCalls).node 1).toFields = true := by decide +kernel
  have other : (parse "[fill=\"red\"]").accepts
      ((Forest.empty.afterAll twoShapesCalls).node 2).toFields = false := by decide +kernel
  have before : ((Forest.empty.afterAll twoShapesCalls).node 1).attributes.names =
      ["fill", "id"] := by decide +kernel
  have beforeId : ((Forest.empty.afterAll twoShapesCalls).node 1).attributes.value? "id" =
      some "p" := by decide +kernel
  obtain ⟨s, pairs, hselector, hpairs, -, sets⟩ := reach.attributes_set tree read rfl
  cases hselector
  cases Value.map_textEntry_inj hpairs
  obtain ⟨paints, -⟩ := sets (by decide +kernel)
  obtain ⟨g, result, hrun, hset⟩ := paints search
  have htest : (parse "[fill=\"red\"]").test
      ((Forest.empty.afterAll twoShapesCalls).node 1).toFields = .ok true := by
    rw [search.test walk, matched]
  obtain ⟨-, painted⟩ := hset.matched 1 walk htest
  refine ⟨reach, tree, _, g, result, read, rfl, hrun, hset.quiet ⟨1, walk, htest⟩, ?_,
    painted.given ("fill", "blue") (by simp), ?_, hset.others 2 ?_⟩
  · rw [painted.names, before]
    decide +kernel
  · rw [painted.others "id" (by decide), beforeId]
  · intro h
    rw [search.test h.1, other] at h
    cases h.2

def paintA : Value :=
  .dict [(.text "name", .text "set_attributes"), (.text "selector", .text "a"),
    (.text "attributes", .dict [(.text "fill", .text "red")])]

/-- The element matches, and no attribute is set on it: the kind of the node after it cannot be
looked up. -/
theorem list_kind_stops_setting :
    (Forest.empty.afterAll listKindCalls).Reachable ∧
      (Forest.empty.afterAll listKindCalls).AllLegacy 0 ∧
      1 ∈ (Forest.empty.afterAll listKindCalls).walk 0 ∧
      (parse "a").test ((Forest.empty.afterAll listKindCalls).node 1).toFields = .ok true ∧
      ((Forest.empty.afterAll listKindCalls).node 1).attributes.value? "fill" = none ∧
      ∃ step kind, Step.ofValue paintA = .ok step ∧
        (Forest.empty.afterAll listKindCalls).runStep 0 step =
          (Forest.empty.afterAll listKindCalls, .error (.unhashable kind)) := by
  have reach : (Forest.empty.afterAll listKindCalls).Reachable :=
    ⟨listKindCalls, by decide +kernel, rfl⟩
  have tree : (Forest.empty.afterAll listKindCalls).AllLegacy 0 := by decide +kernel
  have search : ¬ (Forest.empty.afterAll listKindCalls).Searchable 0 (parse "a") := by
    decide +kernel
  have accepts : (parse "a").accepts ((Forest.empty.afterAll listKindCalls).node 1).toFields =
      true := by
    decide +kernel
  have read : ∃ step, Step.ofValue paintA = .ok step ∧ step.plugin = .setAttributes ∧
      step.selector = .text "a" := ⟨_, rfl, rfl, rfl⟩
  obtain ⟨step, hread, hplugin, hselector⟩ := read
  obtain ⟨i, -, -, hfails⟩ := setAttributesOf_unsearchable reach.wellFormed tree search hselector
  have hperform : (Forest.empty.afterAll listKindCalls).perform 0 step =
      (Forest.empty.afterAll listKindCalls).setAttributesOf 0 step := by
    rw [perform, hplugin]
  refine ⟨reach, tree, by decide +kernel, ?_, by decide +kernel, step, _, hread,
    runStep_of_unhashable (hperform.trans hfails)⟩
  rw [Selector.test_eq (by decide +kernel), accepts]

end Forest
end SvgTree
