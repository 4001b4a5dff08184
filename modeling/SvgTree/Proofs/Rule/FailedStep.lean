/-
What a step that reports an error leaves behind.

The plugin that sets attributes works through the nodes that it found, and on each through
the entries of its mapping.  A blank name stops it, so it never gets beyond the first node.
The entries before that name are set there already, and a result that counts no change says
nothing about them: the forest is as it was just when the node had them before.
-/
import SvgTree.Proofs.Reachable
import SvgTree.Proofs.Rule.Refusal
import SvgTree.Proofs.Selector.Matching

namespace SvgTree

open Value (textEntry)

namespace Attribute

def pair (a : Attribute) : String × String := (a.name, a.value)

theorem map_textEntry (given : List Attribute) :
    (given.map pair).map textEntry = given.map entry := List.map_map

theorem map_fst_pair (given : List Attribute) :
    (given.map pair).map Prod.fst = given.map Attribute.name := List.map_map

theorem map_textEntry_append (given : List Attribute) (p : String × String)
    (rest : List (String × String)) :
    (given.map pair ++ p :: rest).map textEntry =
      given.map entry ++ textEntry p :: rest.map textEntry := by
  rw [List.map_append, List.map_cons, map_textEntry]

/-- Every name is that of an attribute, or a first blank one comes after some that are. -/
theorem pairs_cases (pairs : List (String × String)) :
    (∃ given : List Attribute, pairs = given.map pair) ∨
      ∃ (given : List Attribute) (name value : String) (rest : List (String × String)),
        pairs = given.map pair ++ (name, value) :: rest ∧ Text.isBlank name = true := by
  induction pairs with
  | nil => exact .inl ⟨[], rfl⟩
  | cons p rest ih =>
    obtain ⟨n, v⟩ := p
    cases hn : Text.isBlank n with
    | true => exact .inr ⟨[], n, v, rest, rfl, hn⟩
    | false =>
      rcases ih with ⟨given, rfl⟩ | ⟨given, name, value, others, rfl, hblank⟩
      · exact .inl ⟨⟨n, v, hn⟩ :: given, rfl⟩
      · exact .inr ⟨⟨n, v, hn⟩ :: given, name, value, others, rfl, hblank⟩

end Attribute

namespace Forest

variable {f g : Forest} {i target : NodeId} {l : List NodeId}

/-! ### Setting one entry after the other -/

theorem setEntries_visible (f : Forest) (i : NodeId) (a : Attribute) (rest : List (Value × Value))
    (count : Nat) :
    f.setEntries i (a.entry :: rest) count =
      if a ∈ (f.node i).attributes.entries then f.setEntries i rest count
      else (f.setAttributes i ((f.node i).attributes.insert a)).setEntries i rest (count + 1) := by
  rw [Attribute.entry, setEntries]
  simp only [Attributes.hasValue_text, Attributes.set_visible]
  by_cases ha : a ∈ (f.node i).attributes.entries
  · rw [if_pos ha, Attributes.has_self_iff.mpr ha]
  · rw [if_neg ha, Bool.eq_false_iff.mpr fun h => ha (Attributes.has_self_iff.mp h)]

theorem setEntries_blank (f : Forest) (i : NodeId) {name : String}
    (hblank : Text.isBlank name = true) (value : String) (rest : List (Value × Value))
    (count : Nat) :
    f.setEntries i (textEntry (name, value) :: rest) count =
      (f, .error (.nameMissing (.text name))) := by
  rw [textEntry, setEntries]
  simp only [Attributes.hasValue_text, Attributes.has_of_isBlank hblank,
    Attributes.set_blank hblank]

theorem setEntries_append (hi : i < f.size) (given : List Attribute)
    (rest : List (Value × Value)) (count : Nat) :
    ∃ n, f.setEntries i (given.map Attribute.entry ++ rest) count =
      (f.setAttributes i (given.foldl Attributes.insert (f.node i).attributes)).setEntries i
        rest n := by
  induction given generalizing f count with
  | nil => exact ⟨count, by rw [List.foldl_nil, setAttributes_self]; rfl⟩
  | cons a others ih =>
    rw [List.map_cons, List.cons_append, setEntries_visible, List.foldl_cons]
    by_cases ha : a ∈ (f.node i).attributes.entries
    · rw [if_pos ha, Attributes.insert_of_mem ha]
      exact ih hi count
    · have hsize := (sameShape_setAttributes f i ((f.node i).attributes.insert a)).size_eq
      obtain ⟨n, hn⟩ := ih (f := f.setAttributes i ((f.node i).attributes.insert a))
        (by rwa [hsize]) (count + 1)
      rw [attributes_setAttributes hi, setAttributes_setAttributes] at hn
      exact ⟨n, by rw [if_neg ha, hn]⟩

theorem setEach_ends (given : List Attribute) (hl : ∀ i ∈ l, i < f.size) (count : Nat) :
    Ends f (f.setEach (given.map Attribute.entry) l count) := by
  induction l generalizing f count with
  | nil => exact .ok f _
  | cons i rest ih =>
    obtain ⟨n, hn⟩ := setEntries_append (hl i List.mem_cons_self) given [] count
    have ht := trimmed_setAttributes f i (given.foldl Attributes.insert (f.node i).attributes)
    rw [List.append_nil] at hn
    simp only [setEach, hn, setEntries]
    refine .after ht (ih (fun j hj => ?_) n)
    rw [ht.size_eq]
    exact hl j (List.mem_cons_of_mem _ hj)

/-- A blank name ends the plugin at the first node. -/
theorem setEach_blank (htarget : target < f.size) (given : List Attribute) {name : String}
    (hblank : Text.isBlank name = true) (value : String) (rest : List (Value × Value))
    (others : List NodeId) (count : Nat) :
    f.setEach (given.map Attribute.entry ++ textEntry (name, value) :: rest) (target :: others)
        count =
      (f.setAttributes target (given.foldl Attributes.insert (f.node target).attributes),
        .error (.nameMissing (.text name))) := by
  obtain ⟨n, hn⟩ := setEntries_append htarget given (textEntry (name, value) :: rest) count
  rw [setEntries_blank _ _ hblank] at hn
  simp only [setEach, hn]

/-! ### What is found -/

theorem lt_of_select (wf : f.WellFormed) {root : NodeId} {selector : Value}
    {found : List NodeId} (h : f.select root selector = .ok found) (hi : i ∈ found) :
    i < f.size := by
  have hroot : root < f.size := by
    refine Nat.lt_of_not_le fun hle => ?_
    have hplain : (f.node root).ofClass = .plain := by
      rw [node, node?_eq_none_iff.mpr hle]
      rfl
    rw [select, hplain] at h
    cases h
  unfold select at h
  split at h
  · exact wf.lt_of_mem_walk hroot (of_mem_matching h hi).1
  · cases h

/-! ### The errors of a step -/

/-- An error of a step is a refusal that ended its plugin. -/
theorem refused_of_runStep {root : NodeId} {step : Step} {result : StepResult}
    (hrun : f.runStep root step = (g, .ok result)) (herr : result.errors ≠ []) :
    ∃ e, f.perform root step = (g, .error e) ∧ e.isRefusal = true ∧
      result = { plugin := step.plugin.name, errors := [e.message g.names] } := by
  unfold runStep at hrun
  split at hrun
  · rename_i h e hperform
    split at hrun
    · rename_i hrefusal
      cases hrun
      exact ⟨e, hperform, hrefusal, rfl⟩
    · cases hrun
  · exact absurd (errors_of_perform hrun) herr

/-- The plugin that sets attributes is refused at a blank name and at nothing else. -/
theorem refused_of_setAttributesOf (wf : f.WellFormed) {root : NodeId} {step : Step}
    {pairs : List (String × String)} (hpairs : step.attributes = .dict (pairs.map textEntry))
    {e : Fault} (h : f.setAttributesOf root step = (g, .error e)) (he : e.isRefusal = true) :
    ∃ (target : NodeId) (others : List NodeId) (given : List Attribute) (name value : String)
      (rest : List (String × String)),
      f.select root step.selector = .ok (target :: others) ∧ target < f.size ∧
        pairs = given.map Attribute.pair ++ (name, value) :: rest ∧
        Text.isBlank name = true ∧ e = .nameMissing (.text name) ∧
        g = f.setAttributes target (given.foldl Attributes.insert (f.node target).attributes) := by
  have notRefused {x : Except Fault StepResult} (hx : NeverRefuses x) (hxe : x = .error e) :
      False := by
    rw [hx e hxe] at he
    cases he
  unfold setAttributesOf at h
  split at h
  · rename_i e' hselect
    cases h
    exact (notRefused ((select_neverRefuses f root _).of_eq hselect) rfl).elim
  · cases h
  · rename_i found hne hselect
    have hlt : ∀ i ∈ found, i < f.size := fun i hi => lt_of_select wf hselect hi
    simp only [hpairs] at h
    rcases Attribute.pairs_cases pairs with ⟨given, rfl⟩ | ⟨given, name, value, rest, rfl, hblank⟩
    · rw [List.map_map] at h
      exact (notRefused (((setEach_ends given hlt 0).neverRefuses.bind_pure _).map _)
        (congrArg Prod.snd h)).elim
    · cases found with
      | nil => exact absurd rfl hne
      | cons target others =>
        have htarget := hlt target List.mem_cons_self
        rw [Attribute.map_textEntry_append, setEach_blank htarget given hblank] at h
        cases h
        exact ⟨target, others, given, name, value, rest, hselect, htarget, rfl, hblank, rfl, rfl⟩

/-- A step that was read and that reports an error on a reachable forest sets attributes and
gives a blank name after some others.  It reports no change, and has set those others on the
first node that it found: the forest is as it was before just when that node had them all. -/
theorem Reachable.failed_step (h : f.Reachable) {data : Value} {step : Step}
    (hread : Step.ofValue data = .ok step) {root : NodeId} {result : StepResult}
    (hrun : f.runStep root step = (g, .ok result)) (herr : result.errors ≠ []) :
    ∃ (target : NodeId) (others : List NodeId) (given : List Attribute) (name value : String)
      (rest : List (String × String)),
      step.plugin = .setAttributes ∧ f.select root step.selector = .ok (target :: others) ∧
        step.attributes =
          .dict ((given.map Attribute.pair ++ (name, value) :: rest).map textEntry) ∧
        Text.isBlank name = true ∧ result.changed = 0 ∧
        result.errors = [(Fault.nameMissing (.text name)).message g.names] ∧
        g = f.setAttributes target (given.foldl Attributes.insert (f.node target).attributes) ∧
        ((∀ i, g.node? i = f.node? i) ↔
          ∀ a ∈ given, a ∈ (f.node target).attributes.entries) := by
  have sound := Step.sound_of_ofValue hread
  obtain ⟨e, hperform, hrefusal, rfl⟩ := refused_of_runStep hrun herr
  have hplugin : step.plugin = .setAttributes := by
    by_contra hne
    have hnot := perform_neverRefuses f root sound hne e (congrArg Prod.snd hperform)
    rw [hrefusal] at hnot
    cases hnot
  obtain ⟨pairs, hpairs, hnodup⟩ := sound.settings hplugin
  have hset : f.setAttributesOf root step = (g, .error e) := by
    rw [← hperform, perform, hplugin]
  obtain ⟨target, others, given, name, value, rest, hselect, htarget, rfl, hblank, rfl, rfl⟩ :=
    refused_of_setAttributesOf h.wellFormed hpairs hset hrefusal
  refine ⟨target, others, given, name, value, rest, hplugin, hselect, hpairs, hblank, rfl, rfl,
    rfl, ?_⟩
  -- The names that are set are distinct, as keys of the mapping.
  have hdistinct : (given.map Attribute.name).Nodup := by
    rw [List.map_append, List.map_map] at hnodup
    exact (List.nodup_append.mp hnodup).1
  rw [← Attributes.foldl_insert_eq_self_iff hdistinct, ← setAttributes_eq_self_iff htarget]
  exact ⟨ext_node?, fun heq i => by rw [heq]⟩

/-- A step as a rule lists it, with a name to set and then a blank one. -/
def paintThenBlank : Value :=
  .dict [(.text "name", .text "set_attributes"), (.text "selector", .text "a, c"),
    (.text "attributes", .dict [(.text "fill", .text "red"), (.text "\u3000", .text "x")])]

def paintStep : Step where
  plugin := .setAttributes
  selector := .text "a, c"
  attributes := .dict [(.text "fill", .text "red"), (.text "\u3000", .text "x")]

def painted : Forest × Except Fault StepResult :=
  (Forest.empty.afterAll rootedCalls).runStep 0 paintStep

/-- The step fails at the blank name and leaves some node other than it was. -/
theorem failed_step_of_rooted :
    Step.ofValue paintThenBlank = .ok paintStep ∧
      ∃ result, painted.2 = .ok result ∧ result.errors ≠ [] ∧ result.changed = 0 ∧
        ¬ ∀ i, painted.1.node? i = (Forest.empty.afterAll rootedCalls).node? i := by
  have reach : (Forest.empty.afterAll rootedCalls).Reachable :=
    ⟨rootedCalls, by decide +kernel, rfl⟩
  have read : Step.ofValue paintThenBlank = .ok paintStep := rfl
  have found : ((Forest.empty.afterAll rootedCalls).select 0 paintStep.selector).toOption =
      some [1, 2] := by
    decide +kernel
  have bare : ((Forest.empty.afterAll rootedCalls).node 1).attributes.entries = [] := by
    decide +kernel
  have fails : painted.2.toOption.map (fun result => result.errors.isEmpty) = some false := by
    decide +kernel
  cases hdone : painted.2 with
  | error e =>
    rw [hdone] at fails
    cases fails
  | ok result =>
    have herr : result.errors ≠ [] := by
      rw [hdone] at fails
      intro hnil
      simp [Except.toOption, hnil] at fails
    have hrun : (Forest.empty.afterAll rootedCalls).runStep 0 paintStep =
        (painted.1, .ok result) := Prod.ext rfl hdone
    obtain ⟨target, others, given, name, value, rest, -, hselect, hattributes, hblank, hchanged,
      -, -, hsame⟩ := reach.failed_step read hrun herr
    rw [hselect] at found
    cases found
    refine ⟨read, result, rfl, herr, hchanged, fun hall => ?_⟩
    cases given with
    | nil =>
      -- The first name of the mapping is not the blank one.
      simp only [paintStep, List.map_nil, List.nil_append, List.map_cons, textEntry,
        Value.dict.injEq, List.cons.injEq, Prod.mk.injEq, Value.text.injEq] at hattributes
      rw [← hattributes.1.1] at hblank
      cases hblank
    | cons a others =>
      have hmem := hsame.mp hall a List.mem_cons_self
      rw [bare] at hmem
      cases hmem

/-- The step reports an error and no change, and yet the first node has an attribute more. -/
theorem failed_step_paints :
    (Forest.empty.afterAll rootedCalls).Reachable ∧
      Step.ofValue paintThenBlank = .ok paintStep ∧
      painted.2.toOption.map (fun result => (result.changed, result.errors)) =
        some (0, ["Attribute name must be a non-empty string, got '\\u3000'"]) ∧
      ((Forest.empty.afterAll rootedCalls).node 1).attributes.toPairs = [] ∧
      (painted.1.node 1).attributes.toPairs = [("fill", "red")] := by
  refine ⟨⟨rootedCalls, by decide +kernel, rfl⟩, rfl, ?_⟩
  decide +kernel

end Forest
end SvgTree
