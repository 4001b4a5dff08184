/-
Every plugin comes to an end.

On a tree of legacy nodes whose kinds and names are text, a step that was read has everything
its plugin asks for: selectors and colours that are text, mappings from text to text, names
that are text.  So no look-up fails, and nothing that is found is refused, but for one thing:
the plugin that sets attributes finds a node and is given a blank name.
-/
import SvgTree.Proofs.Rule.FailedStep
import SvgTree.Proofs.Selector.Union
import SvgTree.Proofs.Text.Strip

namespace SvgTree

open Value (textEntry IsTexts)
open Selector (parse)

namespace Value

theorem find?_textEntry {key v : Value} {pairs : List (String × String)}
    (h : find? key (pairs.map textEntry) = some v) : ∃ t, v = .text t := by
  induction pairs with
  | nil => cases h
  | cons p rest ih =>
    rw [List.map_cons, textEntry, find?] at h
    split at h
    · cases h
      exact ⟨p.2, rfl⟩
    · exact ih h

theorem map_textEntry_inj {pairs others : List (String × String)}
    (h : Value.dict (pairs.map textEntry) = .dict (others.map textEntry)) : pairs = others := by
  refine List.map_injective_iff.mpr (fun p q hpq => ?_) (Value.dict.inj h)
  cases p
  cases q
  cases hpq
  rfl

theorem orElse_mapping {v : Value} (h : v = .null ∨ ∃ pairs, IsTexts v pairs) :
    ∃ pairs : List (String × String), v.orElse (.dict []) = .dict (pairs.map textEntry) := by
  rcases h with rfl | ⟨pairs, rfl, -⟩
  · exact ⟨[], rfl⟩
  · cases pairs with
    | nil => exact ⟨[], rfl⟩
    | cons p rest => exact ⟨p :: rest, rfl⟩

end Value

theorem Step.Sound.selector_orElse {step : Step} (hs : step.Sound) :
    ∃ s, step.selector.orElse (.text "") = .text s := by
  rcases hs.selector with h | ⟨s, h⟩
  · exact ⟨"", by rw [h]; rfl⟩
  · exact ⟨s, by rw [h, Value.orElse_empty_text]⟩

namespace Forest

variable {f g : Forest} {root i : NodeId} {l : List NodeId} {step : Step}

/-! ### What is found -/

theorem select_eq (wf : f.WellFormed) (tree : f.LegacyTree root) {selector : Value} {s : String}
    (h : selector.orElse (.text "") = .text s) :
    f.select root selector = .ok (f.accepted (parse s) (f.walk root)) := by
  have hroot := tree.legacy root (wf.mem_walk_self tree.root_lt)
  rw [select, hroot, h]
  exact matching_eq fun i hi => Value.isHashable_of_text (tree.kind i hi)

theorem elements_eq (h : ∀ i ∈ l, (f.node i).kind.isHashable = true) :
    f.elements l = .ok (l.filter fun i => (f.node i).isElement) := by
  induction l with
  | nil => rfl
  | cons i rest ih =>
    have hi := h i List.mem_cons_self
    have hrest := ih fun j hj => h j (List.mem_cons_of_mem _ hj)
    simp only [elements, hi, if_true, hrest, Except.map, List.filter_cons]

/-! ### Loops -/

theorem detachAll_ends (wf : f.WellFormed) (root : NodeId)
    (hl : ∀ i ∈ l, (f.node i).ofClass = .legacy) (count : Nat) (cuts : List Cut) :
    Ends f (f.detachAll root l count cuts) := by
  induction l generalizing f count cuts with
  | nil => exact .ok f _
  | cons i rest ih =>
    have hrest : ∀ j ∈ rest, (f.node j).ofClass = .legacy := fun j hj =>
      hl j (List.mem_cons_of_mem _ hj)
    have hi := detach_legacy (hl i List.mem_cons_self)
    have ht := trimmed_cut wf i
    rw [detachAll]
    split
    · rw [hi]
      refine .after ht (ih (kept_wellFormed.detach wf hi) (fun j hj => ?_) _ _)
      rw [ht.ofClass_eq j]
      exact hrest j hj
    · exact ih wf hrest _ _

theorem newName?_text (pairs : List (String × String)) {name : Value} (h : ∃ n, name = .text n) :
    ∃ new : Option String, newName? (.dict (pairs.map textEntry)) name = .ok (new.map .text) := by
  rw [newName?, if_pos (Value.isHashable_of_text h)]
  cases hfind : Value.find? name (pairs.map textEntry) with
  | none => exact ⟨none, rfl⟩
  | some v =>
    obtain ⟨t, rfl⟩ := Value.find?_textEntry hfind
    exact ⟨some t, rfl⟩

theorem renameAll_ends (pairs : List (String × String))
    (hkind : ∀ i ∈ l, ∃ k, (f.node i).kind = .text k)
    (hname : ∀ i ∈ l, ∃ n, (f.node i).name = .text n) (count : Nat) :
    Ends f (f.renameAll (.dict (pairs.map textEntry)) l count) := by
  induction l generalizing f count with
  | nil => exact .ok f _
  | cons i rest ih =>
    have hkind' := fun j hj => hkind j (List.mem_cons_of_mem i hj)
    have hname' := fun j hj => hname j (List.mem_cons_of_mem i hj)
    have hi := Value.isHashable_of_text (hkind i List.mem_cons_self)
    obtain ⟨new, hnew⟩ := newName?_text pairs (hname i List.mem_cons_self)
    simp only [renameAll, hi, Bool.not_true, Bool.false_eq_true, if_false, hnew]
    split
    · cases new with
      | none => exact ih hkind' hname' count
      | some name =>
        have ht := trimmed_setName f i name
        refine .after ht (ih (fun j hj => ?_) (fun j hj => ht.name_text (hname' j hj)) _)
        rw [ht.kind_eq j]
        exact hkind' j hj
    · exact ih hkind' hname' count

theorem eraseNames_ends (f : Forest) (i : NodeId) (names : List String) (count : Nat) :
    Ends f (f.eraseNames i (names.map .text) count) := by
  induction names generalizing f count with
  | nil => exact .ok f _
  | cons name rest ih =>
    simp only [List.map_cons, eraseNames, Attributes.hasValue_null]
    cases (f.node i).attributes.has name none with
    | false => exact ih f count
    | true => exact .after (trimmed_setAttributes f i _) (ih _ _)

theorem eraseEach_ends {names : Value} {listed : List String}
    (h : listedNames names = .ok (listed.map .text)) (l : List NodeId) (f : Forest) (count : Nat) :
    Ends f (f.eraseEach names l count) := by
  induction l generalizing f count with
  | nil => exact .ok f _
  | cons i rest ih =>
    obtain ⟨g, n, hrun, ht⟩ := eraseNames_ends f i listed count
    simp only [eraseEach, h, hrun]
    exact .after ht (ih g n)

/-! ### Plugins -/

/-- What the plugin that sets attributes cannot get through: some node matches, and one of the
names is blank. -/
def Stumbles (f : Forest) (root : NodeId) (step : Step) : Prop :=
  step.plugin = .setAttributes ∧
    (∃ s, step.selector = .text s ∧
      ∃ i ∈ f.walk root, (parse s).test (f.node i).toFields = .ok true) ∧
    ∃ pairs : List (String × String), step.attributes = .dict (pairs.map textEntry) ∧
      ∃ p ∈ pairs, Text.strip p.1 = ""

theorem stumbles_iff (tree : f.LegacyTree root) {s : String} {pairs : List (String × String)}
    (hplugin : step.plugin = .setAttributes) (hselector : step.selector = .text s)
    (hpairs : step.attributes = .dict (pairs.map textEntry)) :
    f.Stumbles root step ↔
      f.accepted (parse s) (f.walk root) ≠ [] ∧ ∃ p ∈ pairs, Text.isBlank p.1 = true := by
  have htest : ∀ i ∈ f.walk root, (parse s).test (f.node i).toFields = .ok true ↔
      (parse s).accepts (f.node i).toFields = true := by
    intro i hi
    rw [Selector.test_eq (Value.isHashable_of_text (tree.kind i hi)), Except.ok.injEq]
  constructor
  · rintro ⟨-, ⟨s', hs', i, hi, hmatch⟩, pairs', hpairs', p, hp, hblank⟩
    cases hselector.symm.trans hs'
    cases Value.map_textEntry_inj (hpairs.symm.trans hpairs')
    refine ⟨List.ne_nil_of_mem (mem_accepted.mpr ⟨hi, (htest i hi).mp hmatch⟩), p, hp, ?_⟩
    exact Text.strip_eq_empty_iff.mp hblank
  · rintro ⟨hfound, p, hp, hblank⟩
    obtain ⟨i, hi⟩ := List.exists_mem_of_ne_nil _ hfound
    obtain ⟨hwalk, haccepts⟩ := mem_accepted.mp hi
    exact ⟨hplugin, ⟨s, hselector, i, hwalk, (htest i hwalk).mpr haccepts⟩, pairs, hpairs, p, hp,
      Text.strip_eq_empty_iff.mpr hblank⟩

theorem removeRasterImages_ends (wf : f.WellFormed) (tree : f.LegacyTree root) (step : Step) :
    Ends f (f.removeRasterImages root step) := by
  have hselect := select_eq wf tree (Value.orElse_empty_text "image")
  have hlegacy : ∀ i ∈ (f.accepted (parse "image") (f.walk root)).filter fun i =>
      isRasterImage (f.node i).toFields, (f.node i).ofClass = .legacy :=
    fun i hi => tree.legacy i (mem_accepted.mp (List.mem_filter.mp hi).1).1
  obtain ⟨g, done, hrun, ht⟩ := detachAll_ends wf root hlegacy 0 []
  simp only [removeRasterImages, hselect, hrun]
  exact ⟨g, _, rfl, ht⟩

theorem removeElements_ends (wf : f.WellFormed) (tree : f.LegacyTree root) (hs : step.Sound) :
    Ends f (f.removeElements root step) := by
  obtain ⟨s, hselector⟩ := hs.selector_orElse
  have hselect := select_eq wf tree hselector
  simp only [removeElements, hselect]
  cases hfound : f.accepted (parse s) (f.walk root) with
  | nil => exact .ok f _
  | cons i rest =>
    have hlegacy : ∀ j ∈ (i :: rest).filter (· != root), (f.node j).ofClass = .legacy := by
      intro j hj
      rw [← hfound] at hj
      exact tree.legacy j (mem_accepted.mp (List.mem_filter.mp hj).1).1
    obtain ⟨g, done, hrun, ht⟩ := detachAll_ends wf root hlegacy 0 []
    simp only [hrun]
    exact ⟨g, _, rfl, ht⟩

theorem renameElements_ends (tree : f.LegacyTree root) (hs : step.Sound) :
    Ends f (f.renameElements root step) := by
  obtain ⟨pairs, hmapping⟩ := Value.orElse_mapping hs.mapping
  obtain ⟨g, n, hrun, ht⟩ := renameAll_ends pairs tree.kind tree.name 0
  simp only [renameElements_eq, hmapping, hrun]
  exact ⟨g, _, rfl, ht⟩

theorem removeAttributes_ends (wf : f.WellFormed) (tree : f.LegacyTree root) (hs : step.Sound)
    (hplugin : step.plugin ≠ .setAttributes) : Ends f (f.removeAttributes root step) := by
  have htargets : ∃ found, (if step.selector.isTruthy then f.select root step.selector
      else f.elements (f.walk root)) = .ok found := by
    obtain ⟨s, hselector⟩ := hs.selector_orElse
    split
    · exact ⟨_, select_eq wf tree hselector⟩
    · exact ⟨_, elements_eq fun i hi => Value.isHashable_of_text (tree.kind i hi)⟩
  have hnames : ∃ listed : List String, listedNames step.attributes = .ok (listed.map .text) := by
    rcases hs.names hplugin with h | ⟨listed, h⟩
    · exact ⟨[], by rw [h]; rfl⟩
    · exact ⟨listed, by rw [h]; rfl⟩
  obtain ⟨found, hfound⟩ := htargets
  obtain ⟨listed, hlisted⟩ := hnames
  obtain ⟨g, n, hrun, ht⟩ := eraseEach_ends hlisted found f 0
  simp only [removeAttributes, hfound, hrun]
  exact ⟨g, _, rfl, ht⟩

theorem defaultFill_ends (wf : f.WellFormed) (tree : f.LegacyTree root) (hs : step.Sound) :
    Ends f (f.defaultFill root step) := by
  obtain ⟨color, hcolor⟩ := hs.color
  have hselect := select_eq wf tree (Value.orElse_empty_text shapes)
  obtain ⟨g, n, hrun, ht⟩ := fillEach_ends color (f.accepted (parse shapes) (f.walk root)) f 0
  simp only [defaultFill, hselect, hcolor, hrun]
  exact ⟨g, _, rfl, ht⟩

/-- The plugin that sets attributes comes to an end unless it stumbles, and then it is
refused. -/
theorem setAttributesOf_cases (wf : f.WellFormed) (tree : f.LegacyTree root) (hs : step.Sound)
    (hplugin : step.plugin = .setAttributes) :
    (¬ f.Stumbles root step ∧ Ends f (f.setAttributesOf root step)) ∨
      (f.Stumbles root step ∧
        ∃ g e, f.setAttributesOf root step = (g, .error e) ∧ e.isRefusal = true) := by
  have hgiven : step.selector ≠ .null := hs.selector_given (by rw [hplugin]; decide)
  obtain ⟨s, hselector⟩ := hs.selector.resolve_left hgiven
  obtain ⟨pairs, hpairs, -⟩ := hs.settings hplugin
  have horElse : step.selector.orElse (.text "") = .text s := by
    rw [hselector, Value.orElse_empty_text]
  have hselect := select_eq wf tree horElse
  have hlt : ∀ i ∈ f.accepted (parse s) (f.walk root), i < f.size := fun i hi =>
    wf.lt_of_mem_walk tree.root_lt (mem_accepted.mp hi).1
  rw [stumbles_iff tree hplugin hselector hpairs]
  simp only [setAttributesOf, hselect, hpairs]
  cases hfound : f.accepted (parse s) (f.walk root) with
  | nil => exact .inl ⟨fun h => h.1 rfl, .ok f _⟩
  | cons target others =>
    rw [hfound] at hlt
    rcases Attribute.pairs_cases pairs with ⟨given, rfl⟩ | ⟨given, name, value, rest, rfl, hblank⟩
    · obtain ⟨g, n, hrun, ht⟩ := setEach_ends given hlt 0
      refine .inl ⟨?_, ?_⟩
      · rintro ⟨-, p, hp, hblank⟩
        obtain ⟨a, -, rfl⟩ := List.mem_map.mp hp
        have hvisible := a.visible
        rw [Attribute.pair] at hblank
        rw [hblank] at hvisible
        cases hvisible
      · simp only [Attribute.map_textEntry, hrun]
        exact ⟨g, _, rfl, ht⟩
    · have hrun := setEach_blank (hlt target List.mem_cons_self) given hblank value
        (rest.map textEntry) others 0
      refine .inr ⟨⟨List.cons_ne_nil _ _, (name, value), ?_, hblank⟩, ?_⟩
      · exact List.mem_append_right _ List.mem_cons_self
      · simp only [Attribute.map_textEntry_append, hrun]
        exact ⟨_, _, rfl, rfl⟩

/-- On a tree of legacy nodes the plugin of a step that was read comes to an end unless it
stumbles, and then it is refused. -/
theorem perform_cases (wf : f.WellFormed) (tree : f.LegacyTree root) (hs : step.Sound) :
    (¬ f.Stumbles root step ∧ Ends f (f.perform root step)) ∨
      (f.Stumbles root step ∧ ∃ g e, f.perform root step = (g, .error e) ∧ e.isRefusal = true) := by
  have other (hne : step.plugin ≠ .setAttributes) : ¬ f.Stumbles root step := fun h => hne h.1
  unfold perform
  cases hplugin : step.plugin with
  | removeRasterImages =>
    exact .inl ⟨other (by simp [hplugin]), removeRasterImages_ends wf tree step⟩
  | removeElements => exact .inl ⟨other (by simp [hplugin]), removeElements_ends wf tree hs⟩
  | renameElements => exact .inl ⟨other (by simp [hplugin]), renameElements_ends tree hs⟩
  | removeAttributes =>
    have hne : step.plugin ≠ .setAttributes := by simp [hplugin]
    exact .inl ⟨other hne, removeAttributes_ends wf tree hs hne⟩
  | setAttributes => exact setAttributesOf_cases wf tree hs hplugin
  | defaultFill => exact .inl ⟨other (by simp [hplugin]), defaultFill_ends wf tree hs⟩

end Forest
end SvgTree
