/-
What a selector can match.

A selector is supported when one of its alternatives is of the grammar, which is a fact about
its text.  It comes to the same as a fact about trees: for every selector of the grammar there
is a tree of a single node that it matches, and nothing ever matches any other text.  So the
parts that are reported as unsupported are the alternatives that by themselves match no node of
any tree.
-/
import SvgTree.Proofs.Reachable
import SvgTree.Proofs.Selector.Matching
import SvgTree.Proofs.Selector.Parsing
import SvgTree.Proofs.Tree.Export

namespace SvgTree

open Blueprint (named)

/-! ### One node that matches -/

theorem Simple.IsName.visible {name : String} (h : Simple.IsName name) :
    Text.isBlank name = false := by
  obtain ⟨c, hc⟩ := List.exists_mem_of_ne_nil _ (Simple.toList_ne_nil.mpr h.1)
  rw [Bool.eq_false_iff]
  intro hblank
  have hspace := Text.isBlank_iff.mp hblank c hc
  rw [Selector.not_space_of_isNameChar (h.all c hc)] at hspace
  cases hspace

theorem Simple.exists_accepted {s : Simple} (h : s.Formed) :
    ∃ n : Fields, n.kind = .text "element" ∧ (∃ t, n.name = .text t) ∧
      s.accepts n = true := by
  cases s with
  | tag name =>
    refine ⟨⟨.text "element", .text name, .null, .empty⟩, rfl, ⟨name, rfl⟩, ?_⟩
    simp [Simple.accepts, Fields.isElement, Value.isText]
  | attr only name value =>
    obtain ⟨-, hname, -⟩ := h
    let a : Attribute := ⟨name, value, hname.visible⟩
    have hhas : (Attributes.empty.insert a).has name (some value) = true :=
      Attributes.has_self_iff.mpr Attributes.mem_insert_self
    refine ⟨⟨.text "element", .text (only.getD ""), .null, Attributes.empty.insert a⟩, rfl,
      ⟨_, rfl⟩, ?_⟩
    cases only <;> simp [Simple.accepts, Fields.isElement, Value.isText, hhas]
  | unsupported text => exact h.elim

namespace Forest

/-- Under `r` the forest has a tree that a raw one was wrapped to, wherever that was. -/
def WrappedTree (g : Forest) (r : NodeId) : Prop :=
  ∃ (f : Forest) (raw : Value), f.Reachable ∧ f.Admits (.wrap raw) ∧ f.wrap raw = (g, .ok r)

theorem exists_wrappedTree {n : Fields} (hkind : n.kind = .text "element")
    (hname : ∃ t, n.name = .text t) :
    ∃ g r, WrappedTree g r ∧ g.walk r = [r] ∧ (g.node r).toFields = n := by
  obtain ⟨t, hname⟩ := hname
  have hcontainer : n.isContainer = true := by
    rw [Fields.isContainer, hkind]
    rfl
  have hvalue : Blueprint.ofValue (n.exported []) = .fresh n [] := by
    rw [Blueprint.ofValue_exported, Fields.reread_of_isContainer hcontainer hname, List.map_nil]
  have hwrap : Forest.empty.wrap (n.exported []) =
      ((Forest.empty.add ⟨n, .legacy, none, []⟩).1, .ok 0) := by
    rw [Fields.exported_eq, Forest.wrap, ofRaw, ofRawUnder, ← Fields.exported_eq, hvalue,
      realize, construct_eq]
    simp only [attach, attachItems, Except.map]
    rfl
  refine ⟨_, 0, ⟨_, _, ⟨[], trivial, rfl⟩, ?_, hwrap⟩, ?_, rfl⟩
  · show ∀ i ∈ named (Blueprint.ofValue (n.exported [])), i < Forest.empty.size
    simp [hvalue, named, Blueprint.namedAll]
  · rfl

end Forest

namespace Selector

open Forest (WrappedTree)

def CanMatch (s : Selector) : Prop :=
  ∃ g r, WrappedTree g r ∧ ∃ i ∈ g.walk r, s.test (g.node i).toFields = .ok true

theorem isSupported_of_accepts {s : Selector} {n : Fields} (h : s.accepts n = true) :
    s.isSupported = true := by
  obtain ⟨part, hpart, haccepts⟩ := List.any_eq_true.mp h
  refine List.any_eq_true.mpr ⟨part, hpart, ?_⟩
  cases part with
  | tag name => rfl
  | attr only name value => rfl
  | unsupported text => cases haccepts

theorem accepts_of_test {s : Selector} {n : Fields} (h : s.test n = .ok true) :
    s.accepts n = true := by
  unfold test at h
  split at h
  · cases h
  · exact Except.ok.inj h

/-- A supported selector matches the only node of some tree. -/
theorem exists_query_of_isSupported {source : String} (h : (parse source).isSupported = true) :
    ∃ g r, WrappedTree g r ∧ g.queryAll r (parse source) = .ok [r] := by
  obtain ⟨part, hpart, hsupported⟩ := List.any_eq_true.mp h
  have hformed : part.Formed := by
    rw [alternatives_parse] at hpart
    obtain ⟨piece, -, rfl⟩ := List.mem_map.mp hpart
    exact Simple.formed_of_supported hsupported
  obtain ⟨n, hkind, hname, haccepts⟩ := Simple.exists_accepted hformed
  obtain ⟨g, r, htree, hwalk, hnode⟩ := Forest.exists_wrappedTree hkind hname
  have htest : (parse source).test (g.node r).toFields = .ok true := by
    rw [hnode, test_eq (by rw [hkind]; rfl)]
    exact congrArg _ (List.any_eq_true.mpr ⟨part, hpart, haccepts⟩)
  refine ⟨g, r, htree, ?_⟩
  rw [Forest.queryAll, hwalk, Forest.matching, htest]
  rfl

theorem isSupported_iff (source : String) :
    (parse source).isSupported = true ↔
      ∃ g r found, WrappedTree g r ∧ g.queryAll r (parse source) = .ok found ∧ found ≠ [] := by
  constructor
  · intro h
    obtain ⟨g, r, htree, hquery⟩ := exists_query_of_isSupported h
    exact ⟨g, r, [r], htree, hquery, List.cons_ne_nil _ _⟩
  · rintro ⟨g, r, found, -, hquery, hne⟩
    obtain ⟨i, hi⟩ := List.exists_mem_of_ne_nil found hne
    exact isSupported_of_accepts (accepts_of_test (Forest.of_mem_matching hquery hi).2)

theorem canMatch_iff (source : String) :
    (parse source).CanMatch ↔ (parse source).isSupported = true := by
  constructor
  · rintro ⟨g, r, -, i, -, htest⟩
    exact isSupported_of_accepts (accepts_of_test htest)
  · intro h
    obtain ⟨g, r, htree, hquery⟩ := exists_query_of_isSupported h
    exact ⟨g, r, htree, r, Forest.of_mem_matching hquery List.mem_cons_self⟩

/-! ### The parts that are reported -/

theorem parse_alternative {source part : String} (h : part ∈ splitAlternatives source) :
    parse part = .one (Simple.read part.toList) := by
  obtain ⟨piece, hpiece, rfl⟩ := List.mem_map.mp h
  rw [parse_eq, String.toList_ofList, alternativesOf_alternative hpiece]
  rfl

/-- The reported parts are the texts of the alternatives outside the grammar. -/
theorem unsupportedParts_eq (source : String) :
    unsupportedParts (parse source) =
      (splitAlternatives source).filter fun part => !(Simple.read part.toList).isSupported := by
  rw [unsupportedParts, alternatives_parse, splitAlternatives, List.filter_map,
    List.filterMap_map, ← List.filterMap_eq_map, List.filterMap_filter]
  refine List.filterMap_congr fun piece _ => ?_
  simp only [Function.comp_apply, String.toList_ofList]
  have hsource := Simple.source_read piece
  cases hread : Simple.read piece with
  | tag name => rfl
  | attr only name value => rfl
  | unsupported text =>
    rw [hread] at hsource
    simp [Simple.isSupported, ← hsource, Simple.source]

open Classical in
/-- A selector is supported exactly when a query for it finds something in some tree that can
be wrapped, and the parts that are reported as unsupported are, in their order, those of its
stripped pieces that by themselves match no node of any such tree. -/
theorem support_exact (source : String) :
    ((parse source).isSupported = true ↔
      ∃ g r found, WrappedTree g r ∧ g.queryAll r (parse source) = .ok found ∧ found ≠ []) ∧
    unsupportedParts (parse source) =
      (splitAlternatives source).filter fun part => ¬ (parse part).CanMatch := by
  refine ⟨isSupported_iff source, ?_⟩
  rw [unsupportedParts_eq]
  refine List.filter_congr fun part hpart => ?_
  rw [Bool.eq_iff_iff, decide_eq_true_iff, canMatch_iff, parse_alternative hpart]
  simp [isSupported, alternatives]

end Selector
end SvgTree
