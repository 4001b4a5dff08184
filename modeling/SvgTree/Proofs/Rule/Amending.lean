/-
What the plugins that edit attributes do, and what they count.

Each of them finds nodes and then gives every one of these new attributes, which depend on the
old ones alone.  It counts an edit where it makes one, and no edit of a run undoes another, so
that the count is that of the pairs of a node and a name under which the value has changed.
-/
import SvgTree.Proofs.Attribute.Differing
import SvgTree.Proofs.Rule.Editing
import SvgTree.Proofs.Rule.Searching

namespace SvgTree

open Value (textEntry)
open Selector (parse)
open Attributes (Editor differing setter eraser filler)

namespace Forest

variable {f g : Forest} {root i j : NodeId} {l : List NodeId} {edit : Attributes → Attributes}
  {step : Step} {result : StepResult}

/-! ### Edits of a list of nodes -/

/-- The nodes of the list have edited attributes, and nothing else has changed. -/
def Edited (edit : Attributes → Attributes) (l : List NodeId) (f g : Forest) : Prop :=
  ∀ j, g.node? j =
    if j ∈ l then (f.node? j).map fun n => { n with attributes := edit n.attributes }
    else f.node? j

namespace Edited

theorem nil (edit : Attributes → Attributes) (f : Forest) : Edited edit [] f f := fun _ => rfl

theorem cons (hi : i ∉ l) (e : Edited edit l (f.setAttributes i (edit (f.node i).attributes)) g) :
    Edited edit (i :: l) f g := by
  intro j
  rw [e j, setAttributes, node?_modify]
  by_cases hj : i = j
  · subst hj
    rw [if_neg hi, if_pos rfl, if_pos List.mem_cons_self, node]
    cases f.node? i <;> rfl
  · have hmem : j ∈ i :: l ↔ j ∈ l := by simp [Ne.symm hj]
    simp only [if_neg hj, hmem]

theorem node?_eq (e : Edited edit l f g) (hj : j ∉ l) : g.node? j = f.node? j := by
  rw [e j, if_neg hj]

theorem node_eq (e : Edited edit l f g) (j : NodeId) :
    ∃ m, g.node j = { f.node j with attributes := m } ∧
      (j ∉ l → m = (f.node j).attributes) ∧ (j ∈ l → j < f.size → m = edit (f.node j).attributes) := by
  unfold node
  rw [e j]
  by_cases hj : j ∈ l
  · rw [if_pos hj]
    cases hn : f.node? j with
    | none =>
      refine ⟨_, rfl, fun _ => rfl, ?_⟩
      intro _ hlt
      exact absurd hlt (Nat.not_lt.mpr (node?_eq_none_iff.mp hn))
    | some n => exact ⟨_, rfl, fun h => absurd hj h, fun _ _ => rfl⟩
  · rw [if_neg hj]
    exact ⟨_, rfl, fun _ => rfl, fun h => absurd h hj⟩

theorem sameShape (e : Edited edit l f g) : SameShape f g where
  size_eq := by
    have hsome (j : NodeId) : g.node? j = none ↔ f.node? j = none := by
      rw [e j]
      split <;> simp
    refine Nat.le_antisymm ?_ ?_
    · exact node?_eq_none_iff.mp ((hsome f.size).mpr (node?_eq_none_iff.mpr (Nat.le_refl _)))
    · exact node?_eq_none_iff.mp ((hsome g.size).mp (node?_eq_none_iff.mpr (Nat.le_refl _)))
  parent_eq j := by
    rw [parent?, parent?, e j]
    split
    · cases f.node? j <;> rfl
    · rfl
  children_eq j := by
    rw [children, children, e j]
    split
    · cases f.node? j <;> rfl
    · rfl

theorem eq_self (e : Edited edit l f g)
    (h : ∀ i ∈ l, edit (f.node i).attributes = (f.node i).attributes) : g = f := by
  refine ext_node? fun j => ?_
  rw [e j]
  split
  · rename_i hj
    have hedit := h j hj
    unfold node at hedit
    cases hn : f.node? j with
    | none => rfl
    | some n =>
      rw [hn, Option.getD_some] at hedit
      rw [Option.map_some, hedit]
  · rfl

end Edited

/-- The nodes of a list with the names under which an edit changes their attributes. -/
def amended (edit : Attributes → Attributes) (f : Forest) (l : List NodeId) :
    List (NodeId × String) :=
  l.flatMap fun i =>
    (differing (f.node i).attributes (edit (f.node i).attributes)).map fun n => (i, n)

theorem amended_cons (edit : Attributes → Attributes) (f : Forest) (i : NodeId)
    (l : List NodeId) :
    (amended edit f (i :: l)).length =
      (differing (f.node i).attributes (edit (f.node i).attributes)).length +
        (amended edit f l).length := by
  rw [amended, List.flatMap_cons, List.length_append, List.length_map]
  rfl

theorem amended_congr (h : ∀ i ∈ l, g.node i = f.node i) : amended edit g l = amended edit f l :=
  List.flatMap_congr fun i hi => by rw [h i hi]

theorem nodup_amended (nodup : l.Nodup) : (amended edit f l).Nodup := by
  rw [amended, List.nodup_flatMap]
  constructor
  · intro i _
    exact (Attributes.nodup_differing _ _).map fun n n' h => (Prod.mk.inj h).2
  · refine nodup.imp ?_
    intro i j hne p hp hp'
    obtain ⟨n, -, rfl⟩ := List.mem_map.mp hp
    obtain ⟨n', -, h⟩ := List.mem_map.mp hp'
    exact hne (Prod.mk.inj h).1.symm

theorem mem_amended {n : String} :
    (i, n) ∈ amended edit f l ↔
      i ∈ l ∧ (f.node i).attributes.value? n ≠ (edit (f.node i).attributes).value? n := by
  simp [amended, Attributes.mem_differing]

/-- Amended are the names under which the value is not what it was. -/
theorem Edited.mem_amended_iff (e : Edited edit l f g) (hl : ∀ i ∈ l, i < f.size) {n : String} :
    (i, n) ∈ amended edit f l ↔
      (g.node i).attributes.value? n ≠ (f.node i).attributes.value? n := by
  obtain ⟨m, hnode, hother, hedit⟩ := e.node_eq i
  rw [mem_amended, hnode]
  by_cases hi : i ∈ l
  · simp only [hi, true_and, hedit hi (hl i hi)]
    exact ne_comm
  · simp only [hi, false_and, hother hi]
    exact iff_of_false id fun h => h rfl

/-- A loop that edits one node after the other and counts the names under which each edit makes
a difference. -/
theorem loop_edits (run : Forest → List NodeId → Nat → Forest × Except Fault Nat)
    (done : ∀ f count, run f [] count = (f, .ok count))
    (one : ∀ {f : Forest} {i : NodeId} (rest : List NodeId) (count : Nat), i < f.size →
      run f (i :: rest) count = run (f.setAttributes i (edit (f.node i).attributes)) rest
        (count + (differing (f.node i).attributes (edit (f.node i).attributes)).length))
    (hl : ∀ i ∈ l, i < f.size) (nodup : l.Nodup) (count : Nat) :
    ∃ g, run f l count = (g, .ok (count + (amended edit f l).length)) ∧ Edited edit l f g := by
  induction l generalizing f count with
  | nil => exact ⟨f, done f count, .nil edit f⟩
  | cons i rest ih =>
    rw [List.nodup_cons] at nodup
    have hshape := sameShape_setAttributes f i (edit (f.node i).attributes)
    have hrest : ∀ j ∈ rest, j < (f.setAttributes i (edit (f.node i).attributes)).size := by
      intro j hj
      rw [hshape.size_eq]
      exact hl j (List.mem_cons_of_mem _ hj)
    have hsame : ∀ j ∈ rest,
        (f.setAttributes i (edit (f.node i).attributes)).node j = f.node j := by
      intro j hj
      refine (within_setAttributes f i _).node_eq ?_
      intro hji
      exact nodup.1 (List.mem_singleton.mp hji ▸ hj)
    obtain ⟨g, hrun, e⟩ := ih hrest nodup.2
      (count + (differing (f.node i).attributes (edit (f.node i).attributes)).length)
    refine ⟨g, ?_, e.cons nodup.1⟩
    rw [one rest count (hl i List.mem_cons_self), hrun, amended_congr hsame, amended_cons,
      Nat.add_assoc]

/-! ### The edits of one node -/

/-- Entries of distinct names are set, and those that are not there yet count. -/
theorem setEntries_eq (hi : i < f.size) {given : List Attribute}
    (distinct : (given.map Attribute.name).Nodup) (count : Nat) :
    f.setEntries i (given.map Attribute.entry) count =
      (f.setAttributes i ((setter given distinct).edit (f.node i).attributes),
        .ok (count + (differing (f.node i).attributes
          ((setter given distinct).edit (f.node i).attributes)).length)) := by
  show f.setEntries i (given.map Attribute.entry) count =
    (f.setAttributes i (given.foldl Attributes.insert (f.node i).attributes),
      .ok (count + (differing (f.node i).attributes
        (given.foldl Attributes.insert (f.node i).attributes)).length))
  induction given generalizing f count with
  | nil =>
    rw [List.foldl_nil, setAttributes_self, Attributes.differing_self]
    rfl
  | cons a others ih =>
    rw [List.map_cons, List.nodup_cons] at distinct
    rw [List.map_cons, setEntries_visible, List.foldl_cons]
    by_cases ha : a ∈ (f.node i).attributes.entries
    · rw [if_pos ha, Attributes.insert_of_mem ha]
      exact ih hi distinct.2 count
    · have hsize := (sameShape_setAttributes f i ((f.node i).attributes.insert a)).size_eq
      have hrest := ih (f := f.setAttributes i ((f.node i).attributes.insert a))
        (by rwa [hsize]) distinct.2 (count + 1)
      rw [attributes_setAttributes hi, setAttributes_setAttributes] at hrest
      -- The names of the other entries are others.
      have honce (n : String) :
          (f.node i).attributes.value? n = ((f.node i).attributes.insert a).value? n ∨
            ((f.node i).attributes.insert a).value? n =
              (others.foldl Attributes.insert ((f.node i).attributes.insert a)).value? n := by
        by_cases hn : n = a.name
        · rw [hn]
          exact .inr (Attributes.value?_foldl_insert_of_notMem distinct.1).symm
        · rw [Attributes.value?_insert, if_neg hn]
          exact .inl rfl
      rw [if_neg ha, hrest, Attributes.length_differing_trans honce,
        Attributes.length_differing_insert ha, Nat.add_assoc]

theorem eraseNames_text (f : Forest) (i : NodeId) (name : String) (rest : List Value)
    (count : Nat) :
    f.eraseNames i (.text name :: rest) count =
      if (f.node i).attributes.has name none then
        (f.setAttributes i ((f.node i).attributes.erase name)).eraseNames i rest (count + 1)
      else f.eraseNames i rest count := by
  rw [eraseNames]
  simp only [Attributes.hasValue_null]
  cases (f.node i).attributes.has name none <;> rfl

theorem eraseNames_eq (hi : i < f.size) (listed : List String) (count : Nat) :
    f.eraseNames i (listed.map .text) count =
      (f.setAttributes i ((eraser listed).edit (f.node i).attributes),
        .ok (count + (differing (f.node i).attributes
          ((eraser listed).edit (f.node i).attributes)).length)) := by
  show f.eraseNames i (listed.map .text) count =
    (f.setAttributes i (listed.foldl Attributes.erase (f.node i).attributes),
      .ok (count + (differing (f.node i).attributes
        (listed.foldl Attributes.erase (f.node i).attributes)).length))
  induction listed generalizing f count with
  | nil =>
    rw [List.foldl_nil, setAttributes_self, Attributes.differing_self]
    rfl
  | cons name rest ih =>
    rw [List.map_cons, eraseNames_text, List.foldl_cons]
    cases hhas : (f.node i).attributes.has name none with
    | false =>
      have hnone : (f.node i).attributes.value? name = none := by
        rw [Attributes.has_none_eq] at hhas
        simpa using hhas
      rw [if_neg Bool.false_ne_true, Attributes.erase_of_value?_none hnone]
      exact ih hi count
    | true =>
      have hsize := (sameShape_setAttributes f i ((f.node i).attributes.erase name)).size_eq
      have hrest := ih (f := f.setAttributes i ((f.node i).attributes.erase name))
        (by rwa [hsize]) (count + 1)
      rw [attributes_setAttributes hi, setAttributes_setAttributes] at hrest
      -- What was dropped stays away.
      have honce (n : String) :
          (f.node i).attributes.value? n = ((f.node i).attributes.erase name).value? n ∨
            ((f.node i).attributes.erase name).value? n =
              (rest.foldl Attributes.erase ((f.node i).attributes.erase name)).value? n := by
        rw [Attributes.value?_foldl_erase, Attributes.value?_erase]
        by_cases hn : n = name
        · simp [hn]
        · simp [hn]
      rw [if_pos rfl, hrest, Attributes.length_differing_trans honce,
        Attributes.length_differing_erase hhas, Nat.add_assoc]

/-! ### Loops -/

theorem setEach_edits {given : List Attribute} (distinct : (given.map Attribute.name).Nodup)
    (hl : ∀ i ∈ l, i < f.size) (nodup : l.Nodup) (count : Nat) :
    ∃ g, f.setEach (given.map Attribute.entry) l count =
        (g, .ok (count + (amended (setter given distinct).edit f l).length)) ∧
      Edited (setter given distinct).edit l f g := by
  refine loop_edits (fun f l count => f.setEach (given.map Attribute.entry) l count)
    (fun _ _ => rfl) ?_ hl nodup count
  intro f i rest count hi
  simp only [setEach, setEntries_eq hi distinct]

theorem eraseEach_edits {names : Value} {listed : List String}
    (hnames : listedNames names = .ok (listed.map .text)) (hl : ∀ i ∈ l, i < f.size)
    (nodup : l.Nodup) (count : Nat) :
    ∃ g, f.eraseEach names l count =
        (g, .ok (count + (amended (eraser listed).edit f l).length)) ∧
      Edited (eraser listed).edit l f g := by
  refine loop_edits (fun f l count => f.eraseEach names l count) (fun _ _ => rfl) ?_ hl nodup
    count
  intro f i rest count hi
  simp only [eraseEach, hnames, eraseNames_eq hi listed]

theorem visible_fill : Text.isBlank "fill" = false := by decide

def fill (color : String) : Attribute := ⟨"fill", color, visible_fill⟩

theorem fillEach_text (f : Forest) (color : String) (i : NodeId) (rest : List NodeId)
    (count : Nat) :
    f.fillEach (.text color) (i :: rest) count =
      if (f.node i).attributes.has "fill" none then f.fillEach (.text color) rest count
      else
        (f.setAttributes i ((f.node i).attributes.insert (fill color))).fillEach (.text color) rest
          (count + 1) := by
  have hset : (f.node i).attributes.set (.text "fill") (.text color) =
      .ok ((f.node i).attributes.insert (fill color)) :=
    (f.node i).attributes.set_visible (fill color)
  rw [fillEach]
  simp only [hset]

theorem fillEach_edits (color : String) (hl : ∀ i ∈ l, i < f.size) (nodup : l.Nodup)
    (count : Nat) :
    ∃ g, f.fillEach (.text color) l count =
        (g, .ok (count + (amended (filler (fill color)).edit f l).length)) ∧
      Edited (filler (fill color)).edit l f g := by
  refine loop_edits (fun f l count => f.fillEach (.text color) l count) (fun _ _ => rfl) ?_ hl
    nodup count
  intro f i rest count hi
  have hedit : (filler (fill color)).edit (f.node i).attributes =
      if (f.node i).attributes.has "fill" none then (f.node i).attributes
      else (f.node i).attributes.insert (fill color) := rfl
  show f.fillEach (.text color) (i :: rest) count = _
  rw [fillEach_text, hedit]
  by_cases hhas : (f.node i).attributes.has "fill" none = true
  · rw [if_pos hhas, if_pos hhas, Attributes.differing_self, setAttributes_self]
    rfl
  · have hnew : fill color ∉ (f.node i).attributes.entries := by
      intro hmem
      have hvalue : (f.node i).attributes.value? "fill" = some color :=
        Attributes.value?_self_iff.mpr hmem
      rw [Attributes.has_none_eq, hvalue] at hhas
      exact hhas rfl
    rw [if_neg hhas, if_neg hhas, Attributes.length_differing_insert hnew]

/-! ### What is found -/

def found (f : Forest) (root : NodeId) (finds : Fields → Bool) : List NodeId :=
  (f.walk root).filter fun i => finds (f.node i).toFields

theorem found_lt (wf : f.WellFormed) (hroot : root < f.size) (finds : Fields → Bool) :
    ∀ i ∈ f.found root finds, i < f.size := fun _ hi =>
  wf.lt_of_mem_walk hroot (List.mem_filter.mp hi).1

theorem nodup_found (wf : f.WellFormed) (hroot : root < f.size) (finds : Fields → Bool) :
    (f.found root finds).Nodup := (wf.nodup_walk hroot).filter _

/-! ### Plugins -/

/-- On every tree the plugin of a step comes to an end without errors.  It edits the nodes that
pass a test, and counts what it amends. -/
def Amends (root : NodeId) (step : Step) (finds : Fields → Bool) (e : Editor) : Prop :=
  ∀ {f : Forest}, f.WellFormed → f.LegacyTree root →
    ∃ g result, f.perform root step = (g, .ok result) ∧ result.errors = [] ∧
      result.changed = (amended e.edit f (f.found root finds)).length ∧
      Edited e.edit (f.found root finds) f g

theorem select_found (wf : f.WellFormed) (tree : f.LegacyTree root) {selector : Value} {s : String}
    (h : selector.orElse (.text "") = .text s) :
    f.select root selector = .ok (f.found root (parse s).accepts) := select_eq wf tree h

theorem exists_targets (root : NodeId) (hs : step.Sound) :
    ∃ finds, ∀ {f : Forest}, f.WellFormed → f.LegacyTree root →
      (if step.selector.isTruthy then f.select root step.selector else f.elements (f.walk root)) =
        .ok (f.found root finds) := by
  obtain ⟨s, hselector⟩ := hs.selector_orElse
  cases step.selector.isTruthy with
  | true => exact ⟨(parse s).accepts, fun wf tree => select_found wf tree hselector⟩
  | false =>
    refine ⟨Fields.isElement, fun _ tree => elements_eq ?_⟩
    intro i hi
    exact Value.isHashable_of_text (tree.kind i hi)

theorem removeAttributes_amends (root : NodeId) (hs : step.Sound)
    (hplugin : step.plugin = .removeAttributes) : ∃ finds e, Amends root step finds e := by
  have hnames : ∃ listed : List String, listedNames step.attributes = .ok (listed.map .text) := by
    rcases hs.names (by simp [hplugin]) with h | ⟨listed, h⟩
    · exact ⟨[], by rw [h]; rfl⟩
    · exact ⟨listed, by rw [h]; rfl⟩
  obtain ⟨listed, hlisted⟩ := hnames
  obtain ⟨finds, htargets⟩ := exists_targets root hs
  refine ⟨finds, eraser listed, ?_⟩
  intro f wf tree
  obtain ⟨g, hrun, hedited⟩ := eraseEach_edits hlisted (found_lt wf tree.root_lt finds)
    (nodup_found wf tree.root_lt finds) 0
  simp only [perform, hplugin, removeAttributes, htargets wf tree, hrun, Nat.zero_add]
  exact ⟨g, _, rfl, rfl, rfl, hedited⟩

theorem defaultFill_amends (root : NodeId) (hs : step.Sound)
    (hplugin : step.plugin = .defaultFill) : ∃ finds e, Amends root step finds e := by
  obtain ⟨color, hcolor⟩ := hs.color
  refine ⟨(parse shapes).accepts, filler (fill color), ?_⟩
  intro f wf tree
  have hselect := select_found wf tree (Value.orElse_empty_text shapes)
  obtain ⟨g, hrun, hedited⟩ := fillEach_edits color
    (found_lt wf tree.root_lt (parse shapes).accepts)
    (nodup_found wf tree.root_lt (parse shapes).accepts) 0
  simp only [perform, hplugin, defaultFill, hselect, hcolor, hrun, Nat.zero_add]
  exact ⟨g, _, rfl, rfl, rfl, hedited⟩

/-- Attributes to set are set on what is found, and a warning says where nothing was. -/
theorem setAttributesOf_edits {l : List NodeId} {given : List Attribute}
    (hselect : f.select root step.selector = .ok l)
    (hgiven : step.attributes = .dict (given.map Attribute.entry))
    (distinct : (given.map Attribute.name).Nodup) (hl : ∀ i ∈ l, i < f.size) (nodup : l.Nodup) :
    ∃ g result, f.setAttributesOf root step = (g, .ok result) ∧ result.errors = [] ∧
      result.changed = (amended (setter given distinct).edit f l).length ∧
      result.warnings = (if l = [] then (nothingMatched step).warnings else []) ∧
      Edited (setter given distinct).edit l f g := by
  simp only [setAttributesOf, hselect, hgiven]
  cases l with
  | nil => exact ⟨f, _, rfl, rfl, rfl, rfl, .nil _ f⟩
  | cons target others =>
    obtain ⟨g, hrun, hedited⟩ := setEach_edits distinct hl nodup 0
    simp only [hrun, Nat.zero_add]
    exact ⟨g, _, rfl, rfl, rfl, rfl, hedited⟩

theorem setAttributesOf_amends (hplugin : step.plugin = .setAttributes) {s : String}
    (hselector : step.selector.orElse (.text "") = .text s) {given : List Attribute}
    (hgiven : step.attributes = .dict (given.map Attribute.entry))
    (distinct : (given.map Attribute.name).Nodup) :
    Amends root step (parse s).accepts (setter given distinct) := by
  intro f wf tree
  obtain ⟨g, result, hrun, herrors, hchanged, -, hedited⟩ := setAttributesOf_edits
    (select_found wf tree hselector) hgiven distinct (found_lt wf tree.root_lt _)
    (nodup_found wf tree.root_lt _)
  refine ⟨g, result, ?_, herrors, hchanged, hedited⟩
  rw [perform, hplugin]
  exact hrun

/-- The plugin that sets attributes amends, or it does nothing: a name is blank, and nothing is
found for which it would be refused. -/
theorem setAttributesOf_amends_or_idle (wf : f.WellFormed) (tree : f.LegacyTree root)
    (hs : step.Sound) (hplugin : step.plugin = .setAttributes)
    (hrun : f.perform root step = (g, .ok result)) :
    (∃ finds e, Amends root step finds e) ∨
      (g = f ∧ result.errors = [] ∧ result.changed = 0) := by
  obtain ⟨s, hselector⟩ := hs.selector_orElse
  obtain ⟨pairs, hpairs, hdistinct⟩ := hs.settings hplugin
  rcases Attribute.pairs_cases pairs with ⟨given, rfl⟩ | ⟨given, name, value, rest, rfl, hblank⟩
  · rw [Attribute.map_textEntry] at hpairs
    rw [Attribute.map_fst_pair] at hdistinct
    exact .inl ⟨_, _, setAttributesOf_amends hplugin hselector hpairs hdistinct⟩
  · have hselect := select_found wf tree hselector
    rw [perform, hplugin] at hrun
    simp only [setAttributesOf, hselect, hpairs] at hrun
    cases hfound : f.found root (parse s).accepts with
    | nil =>
      rw [hfound] at hrun
      cases hrun
      exact .inr ⟨rfl, rfl, rfl⟩
    | cons target others =>
      -- A blank name stops the plugin at the first node.
      have htarget : target < f.size := by
        refine found_lt wf tree.root_lt (parse s).accepts target ?_
        rw [hfound]
        exact List.mem_cons_self
      have hstop := setEach_blank htarget given hblank value (rest.map textEntry) others 0
      rw [hfound] at hrun
      simp only [Attribute.map_textEntry_append, hstop] at hrun
      cases hrun

/-- A plugin that edits attributes and comes to an end amends, or it does nothing. -/
theorem amends_or_idle (wf : f.WellFormed) (tree : f.LegacyTree root) (hs : step.Sound)
    (hplugin : step.plugin = .setAttributes ∨ step.plugin = .removeAttributes ∨
      step.plugin = .defaultFill) (hrun : f.perform root step = (g, .ok result)) :
    (∃ finds e, Amends root step finds e) ∨
      (g = f ∧ result.errors = [] ∧ result.changed = 0) := by
  rcases hplugin with hplugin | hplugin | hplugin
  · exact setAttributesOf_amends_or_idle wf tree hs hplugin hrun
  · exact .inl (removeAttributes_amends root hs hplugin)
  · exact .inl (defaultFill_amends root hs hplugin)

end Forest
end SvgTree
