/-
What the plugins that cut take out.

Both find nodes in document order and detach them one after the other, each only while it
still stands below the root.  So both prune the tree: of what they find strictly below the root
the outermost nodes are cut out and counted, and all below these stays with them.  The one
refuses to cut the root; the other does cut it, and counts the cut also where nothing holds
the root and it stays as it is.
-/
import SvgTree.Proofs.Rule.Pruning
import SvgTree.Proofs.Rule.Searching

namespace SvgTree

open Selector (parse)

namespace Forest

variable {f g h : Forest} {root i : NodeId} {l top : List NodeId} {step : Step} {s : String}
  {result : StepResult}

/-! ### Strictly below the root -/

/-- The nodes strictly below a node, in document order. -/
def below (f : Forest) (r : NodeId) : List NodeId := (f.children r).flatMap f.walk

namespace WellFormed

theorem walk_eq_below (wf : f.WellFormed) (hroot : root < f.size) :
    f.walk root = root :: f.below root := wf.walk_eq hroot

theorem mem_below (wf : f.WellFormed) (hroot : root < f.size) :
    i ∈ f.below root ↔ i ∈ f.walk root ∧ i ≠ root := by
  have hnodup := wf.nodup_walk hroot
  rw [wf.walk_eq_below hroot] at hnodup ⊢
  have hnot := (List.nodup_cons.mp hnodup).1
  rw [List.mem_cons]
  constructor
  · intro hi
    exact ⟨.inr hi, fun h => hnot (h ▸ hi)⟩
  · intro hi
    exact hi.1.resolve_left hi.2

theorem below_sublist (wf : f.WellFormed) (hroot : root < f.size) :
    (f.below root).Sublist (f.walk root) := by
  rw [wf.walk_eq_below hroot]
  exact List.sublist_cons_self _ _

end WellFormed

theorem accepted_below (wf : f.WellFormed) (hroot : root < f.size) (s : Selector) :
    (f.accepted s (f.walk root)).filter (· != root) = f.accepted s (f.below root) := by
  have hother : ∀ i ∈ f.accepted s (f.below root), (i != root) = true := by
    intro i hi
    have hne := ((wf.mem_below hroot).mp (mem_accepted.mp hi).1).2
    simpa using hne
  rw [wf.walk_eq_below hroot, accepted_cons]
  split
  · rw [List.filter_cons_of_neg (by simp), List.filter_eq_self.mpr hother]
  · rw [List.filter_eq_self.mpr hother]

/-! ### Cuts below the root -/

/-- Below a root that was itself cut out or not, the outermost nodes of a list that comes in
document order are cut out, and the tree is pruned of the list. -/
theorem detachAll_prunes (wf : f.WellFormed) (tree : f.AllLegacy root)
    (hl : l.Sublist (f.below root)) (htop : ∀ a ∈ top, a = root) (o : CutOut f g top)
    (wg : g.WellFormed) (count : Nat) (cuts : List Cut) :
    ∃ h done, g.detachAll root l count cuts = (h, .ok done) ∧ h.WellFormed ∧
      CutOut f h (top ++ f.outermost l) ∧ Pruned f h root l ∧
      done.1 = count + (f.outermost l).length := by
  have hroot := tree.root_lt
  have hbelow : ∀ i ∈ l, i ∈ f.walk root ∧ i ≠ root := fun i hi =>
    (wf.mem_below hroot).mp (hl.subset hi)
  obtain ⟨h, done, hrun, ho, wh, hcount⟩ := detachAll_outermost wf hroot htop hbelow
    (fun i hi => tree.legacy i (hbelow i hi).1) (hl.trans (wf.below_sublist hroot)) o wg count cuts
  exact ⟨h, done, hrun, wh, ho, ho.pruned wf wh hroot htop hbelow, hcount⟩

/-- Outside the tree nothing has changed, but that the root is on no list any more where it
was cut out. -/
theorem CutOut.outside (o : CutOut f g (top ++ f.outermost l)) (wf : f.WellFormed)
    (hroot : root < f.size) (hl : l.Sublist (f.below root)) (htop : ∀ a ∈ top, a = root)
    (hi : i ∉ f.walk root) :
    g.parent? i = f.parent? i ∧ g.children i = without (f.children i) top := by
  have hout : ∀ a ∈ f.outermost l, a ∈ f.walk root ∧ a ≠ root := fun a ha =>
    (wf.mem_below hroot).mp (hl.subset (List.mem_filter.mp ha).1)
  constructor
  · rw [o.parent_eq, if_neg]
    intro hcut
    rcases List.mem_append.mp hcut with hcut | hcut
    · rw [htop i hcut] at hi
      exact hi (wf.mem_walk_self hroot)
    · exact hi (hout i hcut).1
  · rw [o.children_eq]
    refine without_congr fun c hc => ?_
    rw [List.mem_append, or_iff_left]
    -- What was cut out below the root is held inside the tree.
    intro hcut
    obtain ⟨hwalk, hne⟩ := hout c hcut
    obtain ⟨p, hp, hpwalk⟩ := ((wf.mem_walk_iff_held hroot).mp hwalk).resolve_left hne
    exact hi (wf.eq_of_mem_children hc hp ▸ hpwalk)

theorem Pruned.searchable (p : Pruned f g root l) {s : Selector} (hs : f.Searchable root s) :
    g.Searchable root s := by
  refine hs.subset ?_ fun i => congrArg Fields.kind (toFields_node_congr (p.holds_eq i))
  rw [p.walk_eq]
  exact List.filter_subset_self _

theorem Pruned.allLegacy (p : Pruned f g root l) (hsize : g.size = f.size)
    (tree : f.AllLegacy root) : g.AllLegacy root := by
  refine tree.subset hsize ?_ fun i => ofClass_node_congr (p.holds_eq i)
  rw [p.walk_eq]
  exact List.filter_subset_self _

theorem Pruned.mem_below (p : Pruned f g root l) (wf : f.WellFormed) (wg : g.WellFormed)
    (hsize : g.size = f.size) (hroot : root < f.size) (hi : i ∈ g.below root) :
    i ∈ f.below root ∧ i ∉ l := by
  obtain ⟨hwalk, hne⟩ := (wg.mem_below (hsize.symm ▸ hroot)).mp hi
  rw [p.walk_eq] at hwalk
  obtain ⟨hwalk, hspared⟩ := List.mem_filter.mp hwalk
  refine ⟨(wf.mem_below hroot).mpr ⟨hwalk, hne⟩, ?_⟩
  intro hl
  exact (wf.isSpared_iff (wf.lt_of_mem_walk hroot hwalk)).mp hspared i hl (wf.above_self i)

theorem Pruned.none_left (p : Pruned f g root l) (wf : f.WellFormed) (wg : g.WellFormed)
    (hsize : g.size = f.size) (hroot : root < f.size) {finds : Fields → Bool}
    (hl : ∀ i ∈ f.below root, finds (f.node i).toFields = true → i ∈ l) :
    ∀ i ∈ g.below root, finds (g.node i).toFields = false := by
  intro i hi
  obtain ⟨hbelow, hnot⟩ := p.mem_below wf wg hsize hroot hi
  rw [toFields_node_congr (p.holds_eq i), Bool.eq_false_iff]
  intro hfinds
  exact hnot (hl i hbelow hfinds)

/-! ### Elements -/

def removalWarnings (f : Forest) (root : NodeId) (s : String) : List String :=
  if f.accepted (parse s) (f.walk root) = [] then
    ["Selector '" ++ s ++ "' matched no elements"]
  else if (parse s).accepts (f.node root).toFields then ["Refusing to remove the root node"]
  else []

/-- Where the tree can be searched, what is found below the root is detached, and that is
all. -/
theorem removeElements_eq (wf : f.WellFormed) (tree : f.AllLegacy root)
    (hs : f.Searchable root (parse s)) (hselector : step.selector = .text s) :
    f.removeElements root step =
      ((f.detachAll root (f.accepted (parse s) (f.below root)) 0 []).1,
        (f.detachAll root (f.accepted (parse s) (f.below root)) 0 []).2.map fun done =>
          { plugin := step.plugin.name, changed := done.1,
            warnings := f.removalWarnings root s, cuts := done.2 }) := by
  have hbelow := accepted_below wf tree.root_lt (parse s)
  have hselect := hs.select_eq wf tree
  rw [removeElements, hselector, hselect, removalWarnings]
  cases hfound : f.accepted (parse s) (f.walk root) with
  | nil =>
    rw [hfound] at hbelow
    rw [← hbelow, if_pos rfl]
    simp only [List.filter_nil, detachAll, Except.map, nothingMatched, hselector]
    rfl
  | cons j others =>
    have hcontains : (j :: others).contains root = (parse s).accepts (f.node root).toFields := by
      rw [← hfound, Bool.eq_iff_iff, List.contains_iff_mem, mem_accepted]
      simp only [wf.mem_walk_self tree.root_lt, true_and]
    rw [hfound] at hbelow
    simp only [hbelow, hcontains, List.cons_ne_nil, if_false]

/-- The outermost of what is found below the root are cut out and counted. -/
theorem removeElements_spec (wf : f.WellFormed) (tree : f.AllLegacy root)
    (hs : f.Searchable root (parse s)) (hselector : step.selector = .text s) :
    ∃ g result, f.removeElements root step = (g, .ok result) ∧ result.errors = [] ∧
      result.changed = (f.outermost (f.accepted (parse s) (f.below root))).length ∧
      result.warnings = f.removalWarnings root s ∧ g.WellFormed ∧
      CutOut f g (f.outermost (f.accepted (parse s) (f.below root))) ∧
      Pruned f g root (f.accepted (parse s) (f.below root)) := by
  have hsub : (f.accepted (parse s) (f.below root)).Sublist (f.below root) :=
    List.filter_sublist
  obtain ⟨g, done, hrun, wg, ho, hp, hcount⟩ := detachAll_prunes wf tree hsub
    (fun a ha => absurd ha List.not_mem_nil) (.refl f) wf 0 []
  rw [removeElements_eq wf tree hs hselector, hrun]
  refine ⟨g, _, rfl, rfl, ?_, rfl, wg, ho, hp⟩
  show ((done.1 : Nat) : Int) = _
  rw [hcount, Nat.zero_add]

theorem removeElements_idle (wf : f.WellFormed) (tree : f.AllLegacy root)
    (hs : f.Searchable root (parse s)) (hselector : step.selector = .text s)
    (h : f.accepted (parse s) (f.below root) = []) :
    ∃ result, f.removeElements root step = (f, .ok result) ∧ result.errors = [] ∧
      result.changed = 0 := by
  rw [removeElements_eq wf tree hs hselector, h]
  exact ⟨_, rfl, rfl, rfl⟩

theorem removeElements_unsearchable (wf : f.WellFormed) (tree : f.AllLegacy root)
    (hs : ¬ f.Searchable root (parse s)) (hselector : step.selector = .text s) :
    ∃ i ∈ f.walk root, (f.node i).kind.isHashable = false ∧
      f.removeElements root step = (f, .error (.unhashable (f.node i).kind)) := by
  obtain ⟨i, hi, hkind, hfails⟩ := select_unsearchable wf tree hs
  refine ⟨i, hi, hkind, ?_⟩
  rw [removeElements, hselector, hfails]

/-- On every reachable tree of legacy nodes that its selector can be tested on, a step that
removes elements prunes the tree of what matches strictly below the root.  The outermost of
these nodes are counted, stand without a parent, and keep all that is below them; below the
root nothing matches any more.  The root stays where it is, with a warning if it matches, and
nothing outside the tree changes.  A second run changes nothing.  On a tree that the selector
cannot be tested on the step fails and leaves everything as it was. -/
theorem Reachable.outermost_removed (hf : f.Reachable) (tree : f.AllLegacy root)
    (hplugin : step.plugin = .removeElements) (hselector : step.selector = .text s) :
    (f.Searchable root (parse s) →
      (∀ i ∈ f.walk root,
        (parse s).test (f.node i).toFields = .ok ((parse s).accepts (f.node i).toFields)) ∧
      ∃ g result, f.runStep root step = (g, .ok result) ∧ result.errors = [] ∧
        Pruned f g root (f.accepted (parse s) (f.below root)) ∧
        g.parent? root = f.parent? root ∧ (∀ i, i ∉ f.walk root → g.node? i = f.node? i) ∧
        (∀ i ∈ g.below root, (parse s).test (g.node i).toFields = .ok false) ∧
        result.changed = (f.outermost (f.accepted (parse s) (f.below root))).length ∧
        result.warnings = f.removalWarnings root s ∧
        ∃ again, g.runStep root step = (g, .ok again) ∧ again.errors = [] ∧
          again.changed = 0) ∧
    (¬ f.Searchable root (parse s) →
      ∃ i ∈ f.walk root, (f.node i).kind.isHashable = false ∧
        f.runStep root step = (f, .error (.unhashable (f.node i).kind))) := by
  have wf := hf.wellFormed
  have hroot := tree.root_lt
  have hperform (k : Forest) : k.perform root step = k.removeElements root step := by
    rw [perform, hplugin]
  constructor
  · intro hs
    obtain ⟨g, result, hrun, herrors, hchanged, hwarnings, wg, ho, hp⟩ :=
      removeElements_spec wf tree hs hselector
    have hsub : (f.accepted (parse s) (f.below root)).Sublist (f.below root) :=
      List.filter_sublist
    have hcut : ∀ a ∈ f.outermost (f.accepted (parse s) (f.below root)), a ≠ root :=
      fun a ha => ((wf.mem_below hroot).mp (hsub.subset (List.mem_filter.mp ha).1)).2
    have hleft : ∀ i ∈ g.below root, (parse s).accepts (g.node i).toFields = false :=
      hp.none_left wf wg ho.size_eq hroot fun i hi haccepts => mem_accepted.mpr ⟨hi, haccepts⟩
    have hsearch := hp.searchable hs
    have tree' := hp.allLegacy ho.size_eq tree
    have hnone : g.accepted (parse s) (g.below root) = [] := by
      refine List.filter_eq_nil_iff.mpr ?_
      intro i hi
      simp [hleft i hi]
    obtain ⟨again, hagain, herrors', hidle⟩ := removeElements_idle wg tree' hsearch hselector hnone
    refine ⟨fun i hi => hs.test hi, g, result, runStep_of_ok ((hperform f).trans hrun), herrors,
      hp, ?_, ?_, ?_, hchanged, hwarnings, again, runStep_of_ok ((hperform g).trans hagain),
      herrors', hidle⟩
    · rw [ho.parent_eq, if_neg]
      intro hmem
      exact hcut root hmem rfl
    · intro i hi
      have hnone : ∀ a ∈ ([] : List NodeId), a = root := fun a ha => absurd ha List.not_mem_nil
      obtain ⟨hparent, hchildren⟩ := ho.outside wf hroot hsub hnone hi
      rw [without_nil] at hchildren
      exact node?_congr (ho.holds_eq i) hparent hchildren
    · intro i hi
      rw [hsearch.test ((wg.mem_below tree'.root_lt).mp hi).1, hleft i hi]
  · intro hs
    obtain ⟨i, hi, hkind, hfails⟩ := removeElements_unsearchable wf tree hs hselector
    exact ⟨i, hi, hkind, runStep_of_unhashable ((hperform f).trans hfails)⟩

/-- An element over an element and one of another name, each of which holds an element of the
first name, under the numbers 0, 1, 2, 4 and 3. -/
def nestedCalls : List Call :=
  [.wrap (.dict [(.text "name", .text "g"), (.text "children", .list [
    .dict [(.text "name", .text "g"), (.text "children", .list [
      .dict [(.text "name", .text "g")]])],
    .dict [(.text "name", .text "a"), (.text "children", .list [
      .dict [(.text "name", .text "g")]])]])])]

def takeOutG : Step where
  plugin := .removeElements
  selector := .text "g"

/-- Four elements match.  The root stays, one is cut out with another below it, and the fourth
is cut out of the element that does not match. -/
theorem outermost_removed_of_nested :
    (Forest.empty.afterAll nestedCalls).Reachable ∧
      (Forest.empty.afterAll nestedCalls).AllLegacy 0 ∧
      (Forest.empty.afterAll nestedCalls).accepted (parse "g")
        ((Forest.empty.afterAll nestedCalls).walk 0) = [0, 1, 4, 3] ∧
      ∃ g result, (Forest.empty.afterAll nestedCalls).runStep 0 takeOutG = (g, .ok result) ∧
        result.changed = 2 ∧ result.warnings = ["Refusing to remove the root node"] ∧
        g.walk 0 = [0, 2] ∧ g.children 2 = [] ∧ g.parent? 1 = none ∧ g.walk 1 = [1, 4] := by
  have reach : (Forest.empty.afterAll nestedCalls).Reachable :=
    ⟨nestedCalls, by decide +kernel, rfl⟩
  have tree : (Forest.empty.afterAll nestedCalls).AllLegacy 0 := by decide +kernel
  have search : (Forest.empty.afterAll nestedCalls).Searchable 0 (parse "g") := by decide +kernel
  have plugin : takeOutG.plugin = .removeElements := rfl
  have selector : takeOutG.selector = .text "g" := rfl
  obtain ⟨prunes, -⟩ := reach.outermost_removed tree plugin selector
  obtain ⟨-, g, result, hrun, -, pruned, -, -, -, hchanged, hwarnings, -⟩ := prunes search
  have walk : g.walk 0 = [0, 2] := by
    rw [pruned.walk_eq]
    decide +kernel
  have outer : 1 ∈ (Forest.empty.afterAll nestedCalls).outermost
      ((Forest.empty.afterAll nestedCalls).accepted (parse "g")
        ((Forest.empty.afterAll nestedCalls).below 0)) := by decide +kernel
  refine ⟨reach, tree, by decide +kernel, g, result, hrun, ?_, ?_, walk, ?_,
    (pruned.apart 1 outer).1, ?_⟩
  · rw [hchanged]
    decide +kernel
  · rw [hwarnings]
    decide +kernel
  · rw [pruned.children_eq 2 (by simp [walk])]
    decide +kernel
  · rw [(pruned.apart 1 outer).2]
    decide +kernel

def listKindCalls : List Call :=
  [.wrap (.dict [(.text "type", .text "root"), (.text "children", .list [
    .dict [(.text "name", .text "a")],
    .dict [(.text "type", .list [.text "x"])]])])]

def takeOutA : Step where
  plugin := .removeElements
  selector := .text "a"

/-- The element matches, and it is not cut out: the kind of the node after it cannot be looked
up. -/
theorem list_kind_stops_removal :
    (Forest.empty.afterAll listKindCalls).Reachable ∧
      (Forest.empty.afterAll listKindCalls).AllLegacy 0 ∧
      1 ∈ (Forest.empty.afterAll listKindCalls).children 0 ∧
      (parse "a").test ((Forest.empty.afterAll listKindCalls).node 1).toFields = .ok true ∧
      ∃ kind, (Forest.empty.afterAll listKindCalls).runStep 0 takeOutA =
        (Forest.empty.afterAll listKindCalls, .error (.unhashable kind)) := by
  have reach : (Forest.empty.afterAll listKindCalls).Reachable :=
    ⟨listKindCalls, by decide +kernel, rfl⟩
  have tree : (Forest.empty.afterAll listKindCalls).AllLegacy 0 := by decide +kernel
  have search : ¬ (Forest.empty.afterAll listKindCalls).Searchable 0 (parse "a") := by
    decide +kernel
  have accepts : (parse "a").accepts ((Forest.empty.afterAll listKindCalls).node 1).toFields =
      true := by
    decide +kernel
  have selector : takeOutA.selector = .text "a" := rfl
  obtain ⟨i, -, -, hfails⟩ := removeElements_unsearchable reach.wellFormed tree search selector
  refine ⟨reach, tree, by decide +kernel, ?_, _, runStep_of_unhashable hfails⟩
  rw [Selector.test_eq (by decide +kernel), accepts]

/-! ### Raster images -/

def rasters (f : Forest) (l : List NodeId) : List NodeId :=
  (f.accepted (parse "image") l).filter fun i => isRasterImage (f.node i).toFields

def isRaster (f : Forest) (i : NodeId) : Bool :=
  (parse "image").accepts (f.node i).toFields && isRasterImage (f.node i).toFields

theorem mem_rasters : i ∈ f.rasters l ↔ i ∈ l ∧ f.isRaster i = true := by
  rw [rasters, List.mem_filter, mem_accepted, isRaster, Bool.and_eq_true, and_assoc]

theorem rasters_sublist (f : Forest) (l : List NodeId) : (f.rasters l).Sublist l :=
  List.filter_sublist.trans List.filter_sublist

theorem rasters_of_root (wf : f.WellFormed) (hroot : root < f.size) :
    f.rasters (f.walk root) =
      if f.isRaster root then root :: f.rasters (f.below root) else f.rasters (f.below root) := by
  rw [wf.walk_eq_below hroot, rasters, accepted_cons, isRaster]
  cases (parse "image").accepts (f.node root).toFields with
  | false => rfl
  | true =>
    rw [if_pos rfl, List.filter_cons, Bool.true_and]
    rfl

theorem removeRasterImages_eq (wf : f.WellFormed) (tree : f.AllLegacy root)
    (hs : f.Searchable root (parse "image")) :
    f.removeRasterImages root step =
      ((f.detachAll root (f.rasters (f.walk root)) 0 []).1,
        (f.detachAll root (f.rasters (f.walk root)) 0 []).2.map fun done =>
          { plugin := step.plugin.name, changed := done.1, cuts := done.2 }) := by
  rw [removeRasterImages, hs.select_eq wf tree]
  rfl

theorem isSome_indexInParent?_iff (wf : f.WellFormed) :
    (f.indexInParent? i).isSome = true ↔ ∃ p, i ∈ f.children p := by
  rw [Option.isSome_iff_ne_none, Ne, indexInParent?_eq_none_iff wf]
  push Not
  rfl

/-- A cut of the root takes it off the list that holds it, if there is one. -/
theorem exists_cutOut_root (wf : f.WellFormed) (root : NodeId) :
    ∃ top, CutOut f (f.cut root) top ∧ (∀ a ∈ top, a = root) ∧
      (root ∈ top ↔ ∃ p, root ∈ f.children p) := by
  by_cases hheld : ∃ p, root ∈ f.children p
  · obtain ⟨p, hp⟩ := hheld
    refine ⟨[root], cutOut_cut wf hp, ?_, iff_of_true (List.mem_singleton_self root) ⟨p, hp⟩⟩
    intro a ha
    exact List.mem_singleton.mp ha
  · have hfree : ∀ p, root ∉ f.children p := fun p hp => hheld ⟨p, hp⟩
    refine ⟨[], ?_, fun a ha => absurd ha List.not_mem_nil, iff_of_false List.not_mem_nil hheld⟩
    rw [cut_of_not_held wf hfree]
    exact .refl f

theorem detachAll_root (wf : f.WellFormed) (tree : f.AllLegacy root) (l : List NodeId) :
    f.detachAll root (root :: l) 0 [] =
      (f.cut root).detachAll root l 1 (f.cutOf root) := by
  have hself := wf.mem_walk_self tree.root_lt
  have habove : f.isAncestor root root = true :=
    (wf.isAncestor_iff tree.root_lt).mpr (wf.above_self root)
  rw [detachAll, if_pos habove, detach_legacy (tree.legacy root hself)]
  rfl

/-- The list holds the root just when that is a raster image which something holds, and it holds
nothing else. -/
structure RootCut (f : Forest) (root : NodeId) (top : List NodeId) : Prop where
  eq_root : ∀ a ∈ top, a = root
  mem_iff : root ∈ top ↔ f.isRaster root = true ∧ ∃ p, root ∈ f.children p

namespace RootCut

theorem without_eq (r : RootCut f root top) (i : NodeId) :
    without (f.children i) top =
      if f.isRaster root then without (f.children i) [root] else f.children i := by
  split
  · rename_i himage
    refine without_congr fun c hc => ?_
    rw [List.mem_singleton]
    constructor
    · intro hctop
      exact r.eq_root c hctop
    · intro hcroot
      rw [hcroot] at hc ⊢
      exact r.mem_iff.mpr ⟨himage, i, hc⟩
  · rename_i himage
    refine without_eq_self fun c hc hctop => ?_
    have hroot := r.eq_root c hctop ▸ hctop
    exact himage (r.mem_iff.mp hroot).1

theorem mem_append_iff (r : RootCut f root top) (wf : f.WellFormed) (hroot : root < f.size)
    (hl : l.Sublist (f.below root)) :
    root ∈ top ++ f.outermost l ↔
      (f.isRaster root && (f.indexInParent? root).isSome) = true := by
  rw [Bool.and_eq_true, isSome_indexInParent?_iff wf, ← r.mem_iff, List.mem_append, or_iff_left]
  intro hmem
  exact ((wf.mem_below hroot).mp (hl.subset (List.mem_filter.mp hmem).1)).2 rfl

end RootCut

/-- The outermost of the images below the root are cut out and counted, after the root if it is
such an image. -/
theorem removeRasterImages_spec (step : Step) (wf : f.WellFormed) (tree : f.AllLegacy root)
    (hs : f.Searchable root (parse "image")) :
    ∃ g result top, f.removeRasterImages root step = (g, .ok result) ∧ result.errors = [] ∧
      result.changed =
        (f.outermost (f.rasters (f.below root))).length + (if f.isRaster root then 1 else 0) ∧
      RootCut f root top ∧ g.WellFormed ∧
      CutOut f g (top ++ f.outermost (f.rasters (f.below root))) ∧
      Pruned f g root (f.rasters (f.below root)) := by
  have hsub := rasters_sublist f (f.below root)
  rw [removeRasterImages_eq wf tree hs, rasters_of_root wf tree.root_lt]
  cases hraster : f.isRaster root with
  | false =>
    have htop : ∀ a ∈ ([] : List NodeId), a = root := fun a ha => absurd ha List.not_mem_nil
    obtain ⟨g, done, hrun, wg, ho, hp, hcount⟩ :=
      detachAll_prunes wf tree hsub htop (.refl f) wf 0 []
    rw [if_neg Bool.false_ne_true, hrun]
    refine ⟨g, _, [], rfl, rfl, ?_, ⟨htop, by simp [hraster]⟩, wg, ho, hp⟩
    show ((done.1 : Nat) : Int) = _
    rw [hcount, Nat.zero_add]
    simp
  | true =>
    have hself := wf.mem_walk_self tree.root_lt
    have wcut := kept_wellFormed.detach wf (detach_legacy (tree.legacy root hself))
    obtain ⟨top, o, htop, hheld⟩ := exists_cutOut_root wf root
    obtain ⟨g, done, hrun, wg, ho, hp, hcount⟩ :=
      detachAll_prunes wf tree hsub htop o wcut 1 (f.cutOf root)
    rw [if_pos rfl, detachAll_root wf tree, hrun]
    refine ⟨g, _, top, rfl, rfl, ?_, ⟨htop, by simpa [hraster] using hheld⟩, wg, ho, hp⟩
    show ((done.1 : Nat) : Int) = _
    rw [hcount, if_pos rfl]
    push_cast
    omega

/-- Where no image is below the root, and the root is none that something holds, nothing
happens; a root that is an image counts. -/
theorem removeRasterImages_idle (step : Step) (wf : f.WellFormed) (tree : f.AllLegacy root)
    (hs : f.Searchable root (parse "image")) (h : f.rasters (f.below root) = [])
    (hfree : f.isRaster root = true → ∀ p, root ∉ f.children p) :
    ∃ result, f.removeRasterImages root step = (f, .ok result) ∧ result.errors = [] ∧
      result.changed = if f.isRaster root then 1 else 0 := by
  rw [removeRasterImages_eq wf tree hs, rasters_of_root wf tree.root_lt, h]
  cases hraster : f.isRaster root with
  | false => exact ⟨_, rfl, rfl, rfl⟩
  | true =>
    rw [if_pos rfl, detachAll_root wf tree, cut_of_not_held wf (hfree hraster)]
    exact ⟨_, rfl, rfl, rfl⟩

theorem Pruned.isRaster_eq (p : Pruned f g root l) (i : NodeId) : g.isRaster i = f.isRaster i := by
  rw [isRaster, isRaster, toFields_node_congr (p.holds_eq i)]

theorem Pruned.rasters_below (p : Pruned f g root (f.rasters (f.below root))) (wf : f.WellFormed)
    (wg : g.WellFormed) (hsize : g.size = f.size) (hroot : root < f.size) :
    g.rasters (g.below root) = [] := by
  refine List.eq_nil_iff_forall_not_mem.mpr ?_
  intro i hi
  obtain ⟨hi, himage⟩ := mem_rasters.mp hi
  obtain ⟨hbelow, hnot⟩ := p.mem_below wf wg hsize hroot hi
  rw [p.isRaster_eq] at himage
  exact hnot (mem_rasters.mpr ⟨hbelow, himage⟩)

theorem removeRasterImages_unsearchable (step : Step) (wf : f.WellFormed)
    (tree : f.AllLegacy root) (hs : ¬ f.Searchable root (parse "image")) :
    ∃ i ∈ f.walk root, (f.node i).kind.isHashable = false ∧
      f.removeRasterImages root step = (f, .error (.unhashable (f.node i).kind)) := by
  obtain ⟨i, hi, hkind, hfails⟩ := select_unsearchable wf tree hs
  refine ⟨i, hi, hkind, ?_⟩
  rw [removeRasterImages, hfails]

/-- On every reachable tree of legacy nodes whose kinds can be looked up, a step that removes
raster images prunes the tree of those strictly below the root, and counts the outermost of
them.  A root that is itself such an image is counted too, is taken off the list that holds it
if there is one, and is counted again on a second run; where it is none it stays, nothing
outside the tree changes, and a second run counts nothing.  On any other tree the step fails
and leaves everything as it was. -/
theorem Reachable.raster_images_removed (hf : f.Reachable) (tree : f.AllLegacy root)
    (hplugin : step.plugin = .removeRasterImages) :
    (f.Searchable root (parse "image") →
      ∃ g result, f.runStep root step = (g, .ok result) ∧ result.errors = [] ∧
        Pruned f g root (f.rasters (f.below root)) ∧ g.rasters (g.below root) = [] ∧
        (g.parent? root = if f.isRaster root && (f.indexInParent? root).isSome then none
          else f.parent? root) ∧
        (∀ i, i ∉ f.walk root → g.holds i = f.holds i ∧ g.parent? i = f.parent? i ∧
          g.children i = if f.isRaster root then without (f.children i) [root]
            else f.children i) ∧
        result.changed =
          (f.outermost (f.rasters (f.below root))).length + (if f.isRaster root then 1 else 0) ∧
        ∃ again, g.runStep root step = (g, .ok again) ∧ again.errors = [] ∧
          again.changed = if f.isRaster root then 1 else 0) ∧
    (¬ f.Searchable root (parse "image") →
      ∃ i ∈ f.walk root, (f.node i).kind.isHashable = false ∧
        f.runStep root step = (f, .error (.unhashable (f.node i).kind))) := by
  have wf := hf.wellFormed
  have hroot := tree.root_lt
  have hperform (k : Forest) : k.perform root step = k.removeRasterImages root step := by
    rw [perform, hplugin]
  constructor
  · intro hs
    obtain ⟨g, result, top, hrun, herrors, hchanged, htop, wg, ho, hp⟩ :=
      removeRasterImages_spec step wf tree hs
    have hnone := hp.rasters_below wf wg ho.size_eq hroot
    -- A root that is an image is on no list any more.
    have hfree : g.isRaster root = true → ∀ p, root ∉ g.children p := by
      intro himage p hmem
      rw [ho.children_eq, mem_without, List.mem_append] at hmem
      rw [hp.isRaster_eq] at himage
      exact hmem.2 (.inl (htop.mem_iff.mpr ⟨himage, p, hmem.1⟩))
    obtain ⟨again, hagain, herrors', hidle⟩ := removeRasterImages_idle step wg
      (hp.allLegacy ho.size_eq tree) (hp.searchable hs) hnone hfree
    rw [hp.isRaster_eq] at hidle
    refine ⟨g, result, runStep_of_ok ((hperform f).trans hrun), herrors, hp, hnone, ?_, ?_,
      hchanged, again, runStep_of_ok ((hperform g).trans hagain), herrors', hidle⟩
    · rw [ho.parent_eq]
      exact if_congr (htop.mem_append_iff wf hroot (rasters_sublist f _)) rfl rfl
    · intro i hi
      obtain ⟨hparent, hchildren⟩ :=
        ho.outside wf hroot (rasters_sublist f _) htop.eq_root hi
      exact ⟨ho.holds_eq i, hparent, hchildren.trans (htop.without_eq i)⟩
  · intro hs
    obtain ⟨i, hi, hkind, hfails⟩ := removeRasterImages_unsearchable step wf tree hs
    exact ⟨i, hi, hkind, runStep_of_unhashable ((hperform f).trans hfails)⟩

/-- A root over a raster image, which holds another, and over an image of another kind, under the
numbers 0, 1, 3 and 2. -/
def galleryCalls : List Call :=
  [.wrap (.dict [(.text "type", .text "root"), (.text "children", .list [
    .dict [(.text "name", .text "image"),
      (.text "attributes", .dict [(.text "href", .text "a.png")]),
      (.text "children", .list [
        .dict [(.text "name", .text "image"),
          (.text "attributes", .dict [(.text "xlink:href", .text "b.jpg")])]])],
    .dict [(.text "name", .text "image"),
      (.text "attributes", .dict [(.text "href", .text "c.svg")])]])])]

def takeOutRasters : Step where
  plugin := .removeRasterImages

/-- Under a root that is no image the outer one of two raster images is cut out, and the inner
one stays with it. -/
theorem raster_images_removed_of_gallery :
    (Forest.empty.afterAll galleryCalls).Reachable ∧
      (Forest.empty.afterAll galleryCalls).AllLegacy 0 ∧
      (Forest.empty.afterAll galleryCalls).rasters
        ((Forest.empty.afterAll galleryCalls).below 0) = [1, 3] ∧
      ∃ g result, (Forest.empty.afterAll galleryCalls).runStep 0 takeOutRasters =
          (g, .ok result) ∧
        result.changed = 1 ∧ g.walk 0 = [0, 2] ∧ g.parent? 1 = none ∧ g.walk 1 = [1, 3] ∧
        ∃ again, g.runStep 0 takeOutRasters = (g, .ok again) ∧ again.changed = 0 := by
  have reach : (Forest.empty.afterAll galleryCalls).Reachable :=
    ⟨galleryCalls, by decide +kernel, rfl⟩
  have tree : (Forest.empty.afterAll galleryCalls).AllLegacy 0 := by decide +kernel
  have search : (Forest.empty.afterAll galleryCalls).Searchable 0 (parse "image") := by
    decide +kernel
  have plain : (Forest.empty.afterAll galleryCalls).isRaster 0 = false := by decide +kernel
  have outer : (Forest.empty.afterAll galleryCalls).outermost
      ((Forest.empty.afterAll galleryCalls).rasters
        ((Forest.empty.afterAll galleryCalls).below 0)) = [1] := by
    decide +kernel
  have plugin : takeOutRasters.plugin = .removeRasterImages := rfl
  obtain ⟨cuts, -⟩ := reach.raster_images_removed tree plugin
  obtain ⟨g, result, hrun, -, pruned, -, -, -, hchanged, again, hagain, -, hidle⟩ := cuts search
  rw [outer, plain] at hchanged
  rw [plain] at hidle
  obtain ⟨hparent, hwalk⟩ := pruned.apart 1 (by rw [outer]; exact List.mem_singleton_self 1)
  refine ⟨reach, tree, by decide +kernel, g, result, hrun, hchanged, ?_, hparent, ?_, again,
    hagain, hidle⟩
  · rw [pruned.walk_eq]
    decide +kernel
  · rw [hwalk]
    decide +kernel

/-- A raster image that is itself the root of the run does not stay where it was, and it is
counted with the one below it. -/
theorem raster_root_is_cut :
    (Forest.empty.afterAll galleryCalls).Reachable ∧
      (Forest.empty.afterAll galleryCalls).AllLegacy 1 ∧
      (Forest.empty.afterAll galleryCalls).rasters
        ((Forest.empty.afterAll galleryCalls).below 1) = [3] ∧
      (Forest.empty.afterAll galleryCalls).children 0 = [1, 2] ∧
      ((Forest.empty.afterAll galleryCalls).runStep 1 takeOutRasters).1.children 0 = [2] ∧
      ((Forest.empty.afterAll galleryCalls).runStep 1 takeOutRasters).2.toOption.map
        (·.changed) = some 2 := by
  refine ⟨⟨galleryCalls, by decide +kernel, rfl⟩, ?_⟩
  decide +kernel

end Forest
end SvgTree
