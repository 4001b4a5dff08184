/-
Renaming as one substitution.

The plugin that renames elements changes names while it goes through the tree, and looks up the
name that a node has when its turn comes.  No node comes twice, and none gets another name before
its turn.  So every element gets what the mapping has for the name that it had before the run,
and a new name is never looked up again.  Two runs are one run with the composed mapping, as long
as the first leaves no element without a name: a root that has lost its name is no element, and
the second run passes it over.
-/
import SvgTree.Proofs.Rule.Editing
import SvgTree.Proofs.Rule.Searching

namespace SvgTree

namespace Value

variable {m first second : List (Value × Value)} {key v : Value} {s : String}

theorem sameKey_text_iff : v.sameKey (.text s) = true ↔ v = .text s := by
  cases v <;> simp [sameKey, number?]

theorem find?_append (key : Value) (m more : List (Value × Value)) :
    find? key (m ++ more) = (find? key m).or (find? key more) := by
  induction m with
  | nil => rfl
  | cons e rest ih =>
    rw [List.cons_append, find?, find?, ih]
    split <;> rfl

theorem find?_map (key : Value) (m : List (Value × Value)) (edit : Value → Value) :
    find? key (m.map fun e => (e.1, edit e.2)) = (find? key m).map edit := by
  induction m with
  | nil => rfl
  | cons e rest ih =>
    rw [List.map_cons, find?, find?, ih]
    split <;> rfl

theorem exists_mem_of_find? (h : find? key m = some v) : ∃ e ∈ m, e.2 = v := by
  induction m with
  | nil => cases h
  | cons e rest ih =>
    rw [find?] at h
    split at h
    · exact ⟨e, List.mem_cons_self, Option.some.inj h⟩
    · obtain ⟨e', he', hv⟩ := ih h
      exact ⟨e', List.mem_cons_of_mem _ he', hv⟩

theorem find?_filter (keep : Value → Bool) (hkeep : keep (.text s) = true)
    (m : List (Value × Value)) :
    find? (.text s) (m.filter fun e => keep e.1) = find? (.text s) m := by
  induction m with
  | nil => rfl
  | cons e rest ih =>
    rw [List.filter_cons, find?]
    by_cases hkey : e.1.sameKey (.text s) = true
    · rw [sameKey_text_iff.mp hkey, hkeep, if_pos rfl, find?, if_pos hkey]
      rw [if_pos (sameKey_text_iff.mpr rfl)]
    · rw [if_neg hkey]
      split
      · rw [find?, if_neg hkey, ih]
      · exact ih

/-- What a mapping makes of a name: what it has for it, and the name itself where it has
nothing. -/
def substituted (m : List (Value × Value)) (name : Value) : Value := (find? name m).getD name

theorem substituted_of_forall {P : Value → Prop} (h : ∀ e ∈ m, P e.2) (hkey : P key) :
    P (substituted m key) := by
  rw [substituted]
  cases hfind : find? key m with
  | none => exact hkey
  | some v =>
    obtain ⟨e, he, rfl⟩ := exists_mem_of_find? hfind
    exact h e he

/-- The mapping that stands for `first` and then `second`. -/
def composed (first second : List (Value × Value)) : List (Value × Value) :=
  first.map (fun e => (e.1, substituted second e.2)) ++
    second.filter fun e => (find? e.1 first).isNone

theorem substituted_composed (first second : List (Value × Value)) (s : String) :
    substituted (composed first second) (.text s) =
      substituted second (substituted first (.text s)) := by
  rw [substituted, composed, find?_append, find?_map]
  cases hfirst : find? (.text s) first with
  | some v => rw [substituted, substituted, hfirst]; rfl
  | none =>
    rw [find?_filter (fun k => (find? k first).isNone) (by rw [hfirst]; rfl)]
    rw [substituted, substituted, hfirst]
    rfl

theorem orElse_dict (m : List (Value × Value)) : (Value.dict m).orElse (.dict []) = .dict m := by
  cases m <;> rfl

end Value

open Value (find? substituted composed textEntry)

def Step.Renames (step : Step) (m : List (Value × Value)) : Prop :=
  step.plugin = .renameElements ∧ step.mapping = .dict m

/-- What a renaming makes of a node: an element gets what the mapping makes of its name. -/
def Node.renamed (m : List (Value × Value)) (n : Node) : Node :=
  if n.isElement then { n with name := substituted m n.name } else n

namespace Node

variable {n : Node} {m first second : List (Value × Value)}

theorem renamed_of_isElement (h : n.isElement = true) :
    n.renamed m = { n with name := substituted m n.name } := if_pos h

theorem renamed_of_not (h : n.isElement = false) : n.renamed m = n := by
  rw [renamed, h]
  rfl

theorem kind_renamed (m : List (Value × Value)) (n : Node) : (n.renamed m).kind = n.kind := by
  rw [renamed]
  split <;> rfl

theorem isElement_of_isTruthy {name : Value} (h : n.isElement = true)
    (hname : name.isTruthy = true) : ({ n with name := name } : Node).isElement = true := by
  rw [Fields.isElement, Bool.or_eq_true] at h ⊢
  refine h.imp id fun hroot => ?_
  rw [Bool.and_eq_true] at hroot ⊢
  exact ⟨hroot.1, hname⟩

theorem renamed_renamed (hname : ∃ s, n.name = .text s)
    (hfirst : ∀ e ∈ first, e.2.isTruthy = true) :
    (n.renamed first).renamed second = n.renamed (composed first second) := by
  obtain ⟨s, hs⟩ := hname
  cases h : n.isElement with
  | false => rw [renamed_of_not h, renamed_of_not h, renamed_of_not h]
  | true =>
    rw [renamed_of_isElement h, renamed_of_isElement h, hs, Value.substituted_composed]
    refine renamed_of_isElement ?_
    cases hfind : find? (.text s) first with
    | none =>
      rw [substituted, hfind, Option.getD_none, ← hs]
      exact h
    | some name =>
      obtain ⟨e, he, rfl⟩ := Value.exists_mem_of_find? hfind
      rw [substituted, hfind, Option.getD_some]
      exact isElement_of_isTruthy h (hfirst e he)

end Node

namespace Forest

variable {f g h : Forest} {root i : NodeId} {l : List NodeId} {step : Step}
  {m first second : List (Value × Value)} {edit edit' : Node → Node}

/-! ### Edits of a list of nodes -/

def Reworked (edit : Node → Node) (l : List NodeId) (f g : Forest) : Prop :=
  ∀ j, g.node? j = if j ∈ l then (f.node? j).map edit else f.node? j

namespace Reworked

theorem nil (edit : Node → Node) (f : Forest) : Reworked edit [] f f := fun _ => rfl

theorem within (r : Reworked edit l f g) : Within l f g := fun j hj => by rw [r j, if_neg hj]

theorem node_eq (r : Reworked edit l f g) (hi : i ∈ l) (hlt : i < f.size) :
    g.node i = edit (f.node i) := by
  obtain ⟨n, hn⟩ := exists_node?_of_lt hlt
  rw [node, node, r i, if_pos hi, hn]
  rfl

theorem cons (a : Reworked edit [i] f h) (b : Reworked edit l h g) (hi : i ∉ l) :
    Reworked edit (i :: l) f g := by
  intro j
  rw [b j, a j]
  by_cases hj : j = i
  · subst hj
    rw [if_neg hi, if_pos (List.mem_singleton_self _), if_pos List.mem_cons_self]
  · have hone : j ∉ [i] := fun hmem => hj (List.mem_singleton.mp hmem)
    have hmem : j ∈ i :: l ↔ j ∈ l := by simp [hj]
    simp only [if_neg hone, hmem]

theorem comp (a : Reworked edit l f h) (b : Reworked edit' l h g) :
    Reworked (fun n => edit' (edit n)) l f g := by
  intro j
  rw [b j, a j]
  split
  · rw [Option.map_map]
    rfl
  · rfl

theorem congr (r : Reworked edit l f g) (hl : ∀ i ∈ l, i < f.size)
    (heq : ∀ i ∈ l, edit (f.node i) = edit' (f.node i)) : Reworked edit' l f g := by
  intro j
  rw [r j]
  split
  · rename_i hj
    obtain ⟨n, hn⟩ := exists_node?_of_lt (hl j hj)
    have hedit := heq j hj
    rw [node, hn] at hedit
    rw [hn]
    exact congrArg some hedit
  · rfl

theorem unique (r : Reworked edit l f g) (r' : Reworked edit l f h) : g = h :=
  ext_node? fun j => (r j).trans (r' j).symm

end Reworked

/-! ### The loop -/

def renames (f : Forest) (m : List (Value × Value)) (i : NodeId) : Bool :=
  (f.node i).isElement && (find? (f.node i).name m).isSome

/-- All that is looked up can be: the kinds of the nodes, and the names of the elements. -/
structure Nameable (f : Forest) (l : List NodeId) : Prop where
  lt : ∀ i ∈ l, i < f.size
  kind : ∀ i ∈ l, (f.node i).kind.isHashable = true
  name : ∀ i ∈ l, (f.node i).isElement = true → (f.node i).name.isHashable = true

theorem Nameable.congr (hn : f.Nameable l) (hsize : g.size = f.size)
    (hnode : ∀ i ∈ l, g.node i = f.node i) : g.Nameable l where
  lt i hi := hsize ▸ hn.lt i hi
  kind i hi := by
    rw [hnode i hi]
    exact hn.kind i hi
  name i hi := by
    rw [hnode i hi]
    exact hn.name i hi

theorem Nameable.tail (hn : f.Nameable (i :: l)) : f.Nameable l where
  lt j hj := hn.lt j (List.mem_cons_of_mem _ hj)
  kind j hj := hn.kind j (List.mem_cons_of_mem _ hj)
  name j hj := hn.name j (List.mem_cons_of_mem _ hj)

theorem renameAll_cons (hn : f.Nameable (i :: l)) (m : List (Value × Value)) (count : Nat) :
    ∃ h, f.renameAll (.dict m) (i :: l) count =
        h.renameAll (.dict m) l (count + if f.renames m i then 1 else 0) ∧
      Reworked (Node.renamed m) [i] f h ∧ h.size = f.size := by
  have hkind := hn.kind i List.mem_cons_self
  -- Where the edit leaves the node, nothing has changed.
  have same (hself : (f.node i).renamed m = f.node i) : Reworked (Node.renamed m) [i] f f := by
    obtain ⟨n, hnode⟩ := exists_node?_of_lt (hn.lt i List.mem_cons_self)
    intro j
    split
    · rename_i hj
      rw [node, hnode] at hself
      rw [List.mem_singleton.mp hj, hnode]
      exact congrArg some hself.symm
    · rfl
  simp only [renameAll, hkind, Bool.not_true, Bool.false_eq_true, if_false]
  cases helement : (f.node i).isElement with
  | false =>
    refine ⟨f, ?_, same ?_, rfl⟩
    · simp [renames, helement]
    · rw [Node.renamed, helement]
      rfl
  | true =>
    have hname := hn.name i List.mem_cons_self helement
    simp only [newName?, hname, if_true]
    cases hfind : find? (f.node i).name m with
    | none =>
      refine ⟨f, ?_, same ?_, rfl⟩
      · simp [renames, helement, hfind]
      · rw [Node.renamed, helement, substituted, hfind]
        rfl
    | some name =>
      refine ⟨f.setName i name, ?_, ?_, (sameShape_setName f i name).size_eq⟩
      · simp [renames, helement, hfind]
      · obtain ⟨n, hnode⟩ := exists_node?_of_lt (hn.lt i List.mem_cons_self)
        rw [node, hnode, Option.getD_some] at helement hfind
        intro j
        rw [setName, node?_modify]
        by_cases hj : j = i
        · subst hj
          rw [if_pos rfl, if_pos (List.mem_singleton_self _), hnode, Option.map_some,
            Option.map_some, Node.renamed, helement, substituted, hfind]
          rfl
        · rw [if_neg (Ne.symm hj), if_neg fun hmem => hj (List.mem_singleton.mp hmem)]

/-- The loop renames every node of a list as it was before the loop, and counts the elements
whose names are keys. -/
theorem renameAll_eq (hn : f.Nameable l) (nodup : l.Nodup) (m : List (Value × Value))
    (count : Nat) :
    ∃ g, f.renameAll (.dict m) l count = (g, .ok (count + (l.filter (f.renames m)).length)) ∧
      Reworked (Node.renamed m) l f g := by
  induction l generalizing f count with
  | nil => exact ⟨f, rfl, .nil _ f⟩
  | cons i rest ih =>
    rw [List.nodup_cons] at nodup
    obtain ⟨h, hstep, hone, hsize⟩ := renameAll_cons hn m count
    -- The nodes that are still to come are as they were.
    have hnode : ∀ j ∈ rest, h.node j = f.node j := by
      intro j hj
      have hji : j ∉ [i] := fun hmem => nodup.1 (List.mem_singleton.mp hmem ▸ hj)
      exact hone.within.node_eq hji
    obtain ⟨g, hrun, hrest⟩ := ih (hn.tail.congr hsize hnode) nodup.2 _
    have hfilter : rest.filter (h.renames m) = rest.filter (f.renames m) :=
      List.filter_congr fun j hj => by rw [renames, renames, hnode j hj]
    refine ⟨g, ?_, hone.cons hrest nodup.1⟩
    rw [hstep, hrun, hfilter, List.filter_cons]
    split
    · rw [List.length_cons, Nat.add_assoc, Nat.add_comm 1]
    · rfl

/-! ### Runs -/

theorem LegacyTree.nameable (tree : f.LegacyTree root) (wf : f.WellFormed) :
    f.Nameable (f.walk root) where
  lt _ hi := wf.lt_of_mem_walk tree.root_lt hi
  kind i hi := Value.isHashable_of_text (tree.kind i hi)
  name i hi _ := Value.isHashable_of_text (tree.name i hi)

/-- A run on a tree where all that is looked up can be. -/
theorem runStep_renames (wf : f.WellFormed) (hroot : root < f.size)
    (hn : f.Nameable (f.walk root)) (hs : step.Renames m) :
    ∃ g, f.runStep root step = (g, .ok
        { plugin := step.plugin.name, changed := ((f.walk root).filter (f.renames m)).length }) ∧
      Reworked (Node.renamed m) (f.walk root) f g ∧ SameShape f g := by
  obtain ⟨g, hrun, hg⟩ := renameAll_eq hn (wf.nodup_walk hroot) m 0
  have hshape := sameShape_renameAll (.dict m) (f.walk root) f 0
  rw [hrun] at hshape
  have hperform : f.perform root step = (g, .ok
      { plugin := step.plugin.name, changed := ((f.walk root).filter (f.renames m)).length }) := by
    rw [perform, hs.1]
    simp only [renameElements_eq, hs.2, Value.orElse_dict, hrun, Nat.zero_add, Except.map, hs.1]
  exact ⟨g, runStep_of_ok hperform, hg, hshape⟩

theorem Reworked.nameable (r : Reworked (Node.renamed m) l f g) (hn : f.Nameable l)
    (hsize : g.size = f.size) (hm : ∀ e ∈ m, e.2.isHashable = true) : g.Nameable l where
  lt i hi := hsize ▸ hn.lt i hi
  kind i hi := by
    rw [r.node_eq hi (hn.lt i hi), Node.kind_renamed]
    exact hn.kind i hi
  name i hi helement := by
    rw [r.node_eq hi (hn.lt i hi)] at helement ⊢
    cases hbefore : (f.node i).isElement with
    | false =>
      rw [Node.renamed_of_not hbefore, hbefore] at helement
      cases helement
    | true =>
      rw [Node.renamed_of_isElement hbefore]
      exact Value.substituted_of_forall (P := fun v => v.isHashable = true) hm
        (hn.name i hi hbefore)

/-- Two runs are one run by the composed mapping. -/
theorem runStep_composed (wf : f.WellFormed) (tree : f.LegacyTree root) {step' both : Step}
    (hs : step.Renames first) (hs' : step'.Renames second)
    (hboth : both.Renames (composed first second))
    (hfirst : ∀ e ∈ first, e.2.isTruthy = true ∧ e.2.isHashable = true) :
    ∃ g h r r' result, f.runStep root step = (g, .ok r) ∧ g.runStep root step' = (h, .ok r') ∧
      f.runStep root both = (h, .ok result) := by
  have hroot := tree.root_lt
  have hn := tree.nameable wf
  obtain ⟨g, hrun, hg, hshape⟩ := runStep_renames wf hroot hn hs
  have wg := hshape.wellFormed wf
  have hwalk : g.walk root = f.walk root :=
    walk_congr wf wg hshape.size_eq hroot fun i _ => hshape.children_eq i
  have hn' := hg.nameable hn hshape.size_eq fun e he => (hfirst e he).2
  rw [← hwalk] at hn'
  obtain ⟨h, hrun', hh, -⟩ := runStep_renames wg (hshape.size_eq ▸ hroot) hn' hs'
  obtain ⟨h', hrun'', hh', -⟩ := runStep_renames wf hroot hn hboth
  rw [hwalk] at hh
  have hcomposed : Reworked (Node.renamed (composed first second)) (f.walk root) f h :=
    (hg.comp hh).congr hn.lt fun i hi =>
      Node.renamed_renamed (tree.name i hi) fun e he => (hfirst e he).1
  rw [hh'.unique hcomposed] at hrun''
  exact ⟨g, h, _, _, _, hrun, hrun', hrun''⟩

/-- On every reachable tree of legacy nodes a step that renames elements by any mapping gives
every node that was an element what the mapping has for the name that it had, and leaves every
other node as it was.  It counts the elements whose old names are keys.  Where a first mapping
has no empty value and none that cannot be looked up, which no text is, a run by it and a run by
another leave what one run by the composed mapping leaves. -/
theorem Reachable.names_substituted (hf : f.Reachable) (tree : f.LegacyTree root) :
    (∀ (step : Step) (m : List (Value × Value)), step.Renames m →
      ∃ g result, f.runStep root step = (g, .ok result) ∧ result.errors = [] ∧
        (∀ i ∈ f.walk root, (f.node i).isElement = true →
          g.node i = { f.node i with name := substituted m (f.node i).name }) ∧
        (∀ i, ¬ (i ∈ f.walk root ∧ (f.node i).isElement = true) → g.node? i = f.node? i) ∧
        result.changed = ((f.walk root).filter (f.renames m)).length) ∧
      ∀ (step step' both : Step) (first second : List (Value × Value)), step.Renames first →
        step'.Renames second → both.Renames (composed first second) →
        (∀ e ∈ first, e.2.isTruthy = true ∧ e.2.isHashable = true) →
        ∃ g h r r' result, f.runStep root step = (g, .ok r) ∧
          g.runStep root step' = (h, .ok r') ∧ f.runStep root both = (h, .ok result) := by
  have wf := hf.wellFormed
  constructor
  · intro step m hs
    obtain ⟨g, hrun, hg, -⟩ := runStep_renames wf tree.root_lt (tree.nameable wf) hs
    refine ⟨g, _, hrun, rfl, ?_, ?_, rfl⟩
    · intro i hi helement
      rw [hg.node_eq hi (wf.lt_of_mem_walk tree.root_lt hi), Node.renamed_of_isElement helement]
    · intro i hi
      by_cases hwalk : i ∈ f.walk root
      · have helement : (f.node i).isElement = false := by
          cases h : (f.node i).isElement with
          | false => rfl
          | true => exact absurd ⟨hwalk, h⟩ hi
        obtain ⟨n, hnode⟩ := exists_node?_of_lt (wf.lt_of_mem_walk tree.root_lt hwalk)
        rw [node, hnode, Option.getD_some] at helement
        rw [hg i, if_pos hwalk, hnode, Option.map_some, Node.renamed_of_not helement]
      · exact hg.within i hwalk
  · intro step step' both first second hs hs' hboth hfirst
    exact runStep_composed wf tree hs hs' hboth hfirst

def renameBy (pairs : List (String × String)) : Step :=
  { plugin := .renameElements, mapping := .dict (pairs.map textEntry) }

/-- Two names change places, and the second run moves them and a third name on.  Nothing that has
got its name in a run is renamed again in it. -/
theorem names_substituted_of_rooted :
    (Forest.empty.afterAll rootedCalls).Reachable ∧
      (Forest.empty.afterAll rootedCalls).LegacyTree 0 ∧
      ∃ g h r r' result,
        (Forest.empty.afterAll rootedCalls).runStep 0 (renameBy [("a", "b"), ("b", "a")]) =
          (g, .ok r) ∧
        g.runStep 0 (renameBy [("a", "z"), ("c", "a")]) = (h, .ok r') ∧
        (Forest.empty.afterAll rootedCalls).runStep 0
          (renameBy [("a", "b"), ("b", "z"), ("c", "a")]) = (h, .ok result) ∧
        r.changed = 2 ∧ (g.node 1).name = .text "b" ∧ (g.node 3).name = .text "a" ∧
        g.node? 0 = (Forest.empty.afterAll rootedCalls).node? 0 ∧
        result.changed = 3 ∧ (h.node 1).name = .text "b" ∧ (h.node 3).name = .text "z" ∧
        (h.node 2).name = .text "a" := by
  have reach : (Forest.empty.afterAll rootedCalls).Reachable :=
    ⟨rootedCalls, by decide +kernel, rfl⟩
  have tree : (Forest.empty.afterAll rootedCalls).LegacyTree 0 := by decide +kernel
  have element : ∀ i ∈ [1, 2, 3], i ∈ (Forest.empty.afterAll rootedCalls).walk 0 ∧
      ((Forest.empty.afterAll rootedCalls).node i).isElement = true := by decide +kernel
  have unnamed : ¬ (0 ∈ (Forest.empty.afterAll rootedCalls).walk 0 ∧
      ((Forest.empty.afterAll rootedCalls).node 0).isElement = true) := by decide +kernel
  obtain ⟨one, two⟩ := reach.names_substituted tree
  obtain ⟨g, h, r, r', result, hfirst, hsecond, hboth⟩ :=
    two (renameBy [("a", "b"), ("b", "a")]) (renameBy [("a", "z"), ("c", "a")])
      (renameBy [("a", "b"), ("b", "z"), ("c", "a")]) _ _ ⟨rfl, rfl⟩ ⟨rfl, rfl⟩
      ⟨rfl, rfl⟩ (by decide +kernel)
  obtain ⟨g', r₁, hrun, -, hnames, hothers, hcount⟩ :=
    one (renameBy [("a", "b"), ("b", "a")]) _ ⟨rfl, rfl⟩
  rw [hfirst] at hrun
  cases hrun
  obtain ⟨h', r₂, hrun, -, hnames', -, hcount'⟩ :=
    one (renameBy [("a", "b"), ("b", "z"), ("c", "a")]) _ ⟨rfl, rfl⟩
  rw [hboth] at hrun
  cases hrun
  have between := fun i hi => hnames i (element i hi).1 (element i hi).2
  have after := fun i hi => hnames' i (element i hi).1 (element i hi).2
  refine ⟨reach, tree, g, h, r, r', result, hfirst, hsecond, hboth, ?_, ?_, ?_, hothers 0 unnamed,
    ?_, ?_, ?_, ?_⟩
  · rw [hcount]
    decide +kernel
  · rw [between 1 (by simp)]
    exact Value.isText_iff.mp (by decide +kernel)
  · rw [between 3 (by simp)]
    exact Value.isText_iff.mp (by decide +kernel)
  · rw [hcount']
    decide +kernel
  · rw [after 1 (by simp)]
    exact Value.isText_iff.mp (by decide +kernel)
  · rw [after 3 (by simp)]
    exact Value.isText_iff.mp (by decide +kernel)
  · rw [after 2 (by simp)]
    exact Value.isText_iff.mp (by decide +kernel)

end Forest
end SvgTree
