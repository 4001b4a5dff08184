/-
A reported change is a change, with two exceptions.

A plugin that edits names or attributes works through nodes of which none comes twice, so it
is enough to count right on each.  A plugin that cuts counts the nodes that it finds below the
root, and each of them is on some list.  The exceptions are edits that are counted and do
nothing: to rename an element to the name that it has, and to cut a root that nothing holds.
-/
import SvgTree.Proofs.Rule.Amending
import SvgTree.Proofs.Rule.Removing
import SvgTree.Proofs.Rule.Running

namespace SvgTree

open Value (textEntry)
open Selector (parse)

namespace Forest

variable {f g h : Forest} {root i j : NodeId} {l : List NodeId} {step : Step}
  {count idle more m n : Nat}

/-- Every node has the name, the attributes, the parent and the children that it had. -/
def Same (f g : Forest) : Prop :=
  ∀ i, (g.node i).name = (f.node i).name ∧ (g.node i).attributes = (f.node i).attributes ∧
    g.parent? i = f.parent? i ∧ g.children i = f.children i

theorem Same.refl (f : Forest) : Same f f := fun _ => ⟨rfl, rfl, rfl, rfl⟩

/-- Edits that are counted: they are edits of nodes of the list, and `idle` of them at least
are counted; no more than these are just when nothing has changed. -/
structure Tally (f g : Forest) (l : List NodeId) (count idle n : Nat) : Prop where
  within : Within l f g
  size_eq : g.size = f.size
  le : count + idle ≤ n
  same_iff : Same f g ↔ n = count + idle

namespace Tally

theorem refl (l : List NodeId) (f : Forest) (count : Nat) : Tally f f l count 0 count :=
  ⟨.refl l f, rfl, Nat.le_refl _, iff_of_true (.refl f) rfl⟩

theorem skip (i : NodeId) (t : Tally f g l count idle n) : Tally f g (i :: l) count idle n :=
  { t with within := t.within.mono (List.subset_cons_self i l) }

/-- Edits of one node and then of others.  What changed at the one is not changed back. -/
theorem cons (a : Tally f h [i] count idle m) (b : Tally h g l m more n) (hi : i ∉ l) :
    Tally f g (i :: l) count (idle + more) n where
  within := a.within.cons b.within
  size_eq := b.size_eq.trans a.size_eq
  le := by
    have := a.le
    have := b.le
    omega
  same_iff := by
    have hboth : Same f g ↔ Same f h ∧ Same h g := by
      constructor
      · intro hsame
        have hfirst : Same f h := by
          intro j
          by_cases hj : j = i
          · subst hj
            have hnode := b.within j hi
            have hview := hsame j
            simp only [node, parent?, children, hnode] at hview ⊢
            exact hview
          · have hnode := a.within j fun hmem => hj (List.mem_singleton.mp hmem)
            simp only [node, parent?, children, hnode, and_self]
        refine ⟨hfirst, fun j => ?_⟩
        obtain ⟨hn, ha, hp, hc⟩ := hsame j
        obtain ⟨hn', ha', hp', hc'⟩ := hfirst j
        exact ⟨hn.trans hn'.symm, ha.trans ha'.symm, hp.trans hp'.symm, hc.trans hc'.symm⟩
      · rintro ⟨hfirst, hsecond⟩ j
        obtain ⟨hn, ha, hp, hc⟩ := hsecond j
        obtain ⟨hn', ha', hp', hc'⟩ := hfirst j
        exact ⟨hn.trans hn', ha.trans ha', hp.trans hp', hc.trans hc'⟩
    have hle := a.le
    have hle' := b.le
    rw [hboth, a.same_iff, b.same_iff]
    omega

end Tally

/-! ### One node -/

theorem name_setName (hi : i < f.size) (name : Value) :
    ((f.setName i name).node i).name = name := by
  obtain ⟨n, hn⟩ := exists_node?_of_lt hi
  unfold node setName
  rw [node?_modify, if_pos rfl, hn]
  rfl

theorem setName_self (f : Forest) (i : NodeId) : f.setName i (f.node i).name = f := by
  refine ext_node? fun j => ?_
  unfold setName node
  rw [node?_modify]
  by_cases hij : i = j
  · subst hij
    cases f.node? i <;> simp
  · simp [hij]

theorem tally_setName (hi : i < f.size) {name : Value} (hle : idle ≤ 1)
    (hidle : name = (f.node i).name ↔ idle = 1) (count : Nat) :
    Tally f (f.setName i name) [i] count idle (count + 1) where
  within := within_setName f i name
  size_eq := (sameShape_setName f i name).size_eq
  le := by omega
  same_iff := by
    have hone : idle = 1 ↔ count + 1 = count + idle := by omega
    rw [← hone, ← hidle]
    constructor
    · intro hsame
      rw [← (hsame i).1, name_setName hi]
    · rintro rfl
      rw [setName_self]
      exact .refl f

/-! ### Lists of nodes -/

theorem Edited.tally {e : Attributes.Editor} (h : Edited e.edit l f g)
    (hl : ∀ i ∈ l, i < f.size) (count : Nat) :
    Tally f g l count 0 (count + (amended e.edit f l).length) where
  within _ hj := h.node?_eq hj
  size_eq := h.sameShape.size_eq
  le := Nat.le_add_right _ _
  same_iff := by
    rw [Nat.add_zero, Nat.add_eq_left, List.length_eq_zero_iff]
    constructor
    · intro hsame
      refine List.eq_nil_iff_forall_not_mem.mpr ?_
      intro p hp
      have hne := (h.mem_amended_iff hl).mp hp
      rw [(hsame p.1).2.1] at hne
      exact hne rfl
    · intro hnone
      have hself : g = f := by
        refine h.eq_self fun i hi => e.eq_of_values _ fun n => ?_
        by_contra hne
        have hmem := mem_amended.mpr ⟨hi, Ne.symm hne⟩
        rw [hnone] at hmem
        exact List.not_mem_nil hmem
      rw [hself]
      exact .refl f

def keepsName (f : Forest) (mapping : Value) (i : NodeId) : Bool :=
  (f.node i).isElement &&
    match newName? mapping (f.node i).name with
    | .ok (some name) => name.sameKey (f.node i).name
    | _ => false

theorem renameAll_tally (pairs : List (String × String)) (hl : ∀ i ∈ l, i < f.size)
    (hkind : ∀ i ∈ l, ∃ k, (f.node i).kind = .text k)
    (hname : ∀ i ∈ l, ∃ n, (f.node i).name = .text n) (nodup : l.Nodup) (count : Nat) :
    ∃ g n, f.renameAll (.dict (pairs.map textEntry)) l count = (g, .ok n) ∧
      Tally f g l count (l.filter (f.keepsName (.dict (pairs.map textEntry)))).length n := by
  induction l generalizing f count with
  | nil => exact ⟨f, count, rfl, .refl [] f count⟩
  | cons i rest ih =>
    rw [List.nodup_cons] at nodup
    have hi := hl i List.mem_cons_self
    have hhash := Value.isHashable_of_text (hkind i List.mem_cons_self)
    obtain ⟨name, hnamei⟩ := hname i List.mem_cons_self
    obtain ⟨new, hnew⟩ := newName?_text pairs ⟨name, hnamei⟩
    have hkeeps : f.keepsName (.dict (pairs.map textEntry)) i =
        ((f.node i).isElement && (new.map (· == name)).getD false) := by
      rw [keepsName, hnew, hnamei]
      cases new <;> rfl
    -- The others are counted in whatever forest holds them as this one does.
    have hothers : ∀ {h : Forest} (count : Nat), h.size = f.size →
        (∀ j ∈ rest, h.node j = f.node j) →
        ∃ g n, h.renameAll (.dict (pairs.map textEntry)) rest count = (g, .ok n) ∧
          Tally h g rest count
            (rest.filter (f.keepsName (.dict (pairs.map textEntry)))).length n := by
      intro h count hsize hnode
      have hfilter : rest.filter (h.keepsName (.dict (pairs.map textEntry))) =
          rest.filter (f.keepsName (.dict (pairs.map textEntry))) :=
        List.filter_congr fun j hj => by rw [keepsName, keepsName, hnode j hj]
      rw [← hfilter]
      refine ih ?_ ?_ ?_ nodup.2 count
      · intro j hj
        rw [hsize]
        exact hl j (List.mem_cons_of_mem _ hj)
      · intro j hj
        rw [hnode j hj]
        exact hkind j (List.mem_cons_of_mem _ hj)
      · intro j hj
        rw [hnode j hj]
        exact hname j (List.mem_cons_of_mem _ hj)
    simp only [renameAll, hhash, Bool.not_true, Bool.false_eq_true, if_false, hnew]
    cases helement : (f.node i).isElement with
    | false =>
      obtain ⟨g, n, hn, others⟩ := hothers count rfl fun _ _ => rfl
      rw [List.filter_cons_of_neg (by simp [hkeeps, helement])]
      exact ⟨g, n, hn, others.skip i⟩
    | true =>
      cases new with
      | none =>
        obtain ⟨g, n, hn, others⟩ := hothers count rfl fun _ _ => rfl
        rw [List.filter_cons_of_neg (by simp [hkeeps])]
        exact ⟨g, n, hn, others.skip i⟩
      | some t =>
        have first : Tally f (f.setName i (.text t)) [i] count (if t = name then 1 else 0)
            (count + 1) := tally_setName hi (by split <;> omega) (by simp [hnamei]) count
        have hnode : ∀ j ∈ rest, (f.setName i (.text t)).node j = f.node j := fun j hj =>
          first.within.node_eq fun hmem => nodup.1 (List.mem_singleton.mp hmem ▸ hj)
        obtain ⟨g, n, hn, others⟩ := hothers (count + 1) first.size_eq hnode
        have hlength : ((i :: rest).filter (f.keepsName (.dict (pairs.map textEntry)))).length =
            (if t = name then 1 else 0) +
              (rest.filter (f.keepsName (.dict (pairs.map textEntry)))).length := by
          rw [List.filter_cons, hkeeps, helement]
          by_cases ht : t = name
          · simp [ht, Nat.add_comm]
          · simp [ht]
        rw [hlength]
        exact ⟨g, n, hn, first.cons others nodup.1⟩

/-! ### Cuts -/

/-- Cuts change nothing just when nothing is cut. -/
theorem CutOut.same_iff {gone : List NodeId} (c : CutOut f g gone) : Same f g ↔ gone = [] := by
  constructor
  · intro hsame
    refine List.eq_nil_iff_forall_not_mem.mpr fun i hi => ?_
    obtain ⟨p, hp⟩ := c.held i hi
    rw [← (hsame p).2.2.2, c.children_eq, mem_without] at hp
    exact hp.2 hi
  · rintro rfl i
    have hfields := toFields_node_congr (c.holds_eq i)
    refine ⟨congrArg Fields.name hfields, congrArg Fields.attributes hfields, ?_, ?_⟩
    · rw [c.parent_eq, if_neg List.not_mem_nil]
    · rw [c.children_eq, without_nil]

/-! ### Plugins -/

def idleImage (f : Forest) (root : NodeId) : Bool :=
  (parse "image").accepts (f.node root).toFields && isRasterImage (f.node root).toFields &&
    (f.indexInParent? root).isNone

def idleEdits (f : Forest) (root : NodeId) (step : Step) : Nat :=
  match step.plugin with
  | .removeRasterImages => if f.idleImage root then 1 else 0
  | .renameElements =>
    ((f.walk root).filter (f.keepsName (step.mapping.orElse (.dict [])))).length
  | _ => 0

/-- What is reported between two forests: no fewer changes than idle edits, and no more just
when nothing has changed. -/
def Reports (f g : Forest) (idle : Nat) (result : StepResult) : Prop :=
  (idle : Int) ≤ result.changed ∧ (Same f g ↔ result.changed = idle)

variable {result : StepResult}

theorem Tally.reports (t : Tally f g l 0 idle n) (hresult : result.changed = n) :
    Reports f g idle result := by
  have hle := t.le
  rw [Reports, hresult, t.same_iff]
  omega

theorem reports_nothing (hresult : result.changed = 0) : Reports f f 0 result :=
  (Tally.refl [] f 0).reports hresult

theorem CutOut.reports {gone : List NodeId} (c : CutOut f g gone)
    (hresult : result.changed = (gone.length : Nat)) : Reports f g 0 result := by
  rw [Reports, hresult, c.same_iff, ← List.length_eq_zero_iff]
  omega

/-- Each image that is cut out below the root counts, and a root that is one counts whether or
not it can be cut. -/
theorem removeRasterImages_reports (wf : f.WellFormed) (tree : f.LegacyTree root)
    (hrun : f.removeRasterImages root step = (g, .ok result)) :
    Reports f g (if f.idleImage root then 1 else 0) result := by
  obtain ⟨g', result', top, hrun', -, hchanged, htop, -, hcut, -⟩ :=
    removeRasterImages_spec step wf tree.allLegacy (tree.searchable _)
  rw [hrun] at hrun'
  cases hrun'
  have hidle : f.idleImage root = (f.isRaster root && (f.indexInParent? root).isNone) := rfl
  rw [Reports, hcut.same_iff, hchanged, hidle]
  by_cases hroot : root ∈ top
  · obtain ⟨himage, hholder⟩ := htop.mem_iff.mp hroot
    have hindex : (f.indexInParent? root).isNone = false := by
      rw [← Option.not_isSome, (isSome_indexInParent?_iff wf).mpr hholder]
      rfl
    have hne : top ++ f.outermost (f.rasters (f.below root)) ≠ [] :=
      List.ne_nil_of_mem (List.mem_append_left _ hroot)
    simp only [himage, hindex, hne, Bool.and_false, Bool.false_eq_true, if_true, if_false,
      false_iff]
    omega
  · have hnil : top = [] := by
      refine List.eq_nil_iff_forall_not_mem.mpr ?_
      intro a ha
      exact hroot (htop.eq_root a ha ▸ ha)
    rw [hnil, List.nil_append, ← List.length_eq_zero_iff]
    cases himage : f.isRaster root with
    | false =>
      simp only [Bool.false_and, Bool.false_eq_true, if_false]
      omega
    | true =>
      have hindex : (f.indexInParent? root).isNone = true := by
        rw [Option.isNone_iff_eq_none, indexInParent?_eq_none_iff wf]
        intro p hp
        exact hroot (htop.mem_iff.mpr ⟨himage, p, hp⟩)
      simp only [hindex, Bool.and_self, if_true]
      omega

theorem removeElements_reports (wf : f.WellFormed) (tree : f.LegacyTree root) (hs : step.Sound)
    (hplugin : step.plugin = .removeElements)
    (hrun : f.removeElements root step = (g, .ok result)) : Reports f g 0 result := by
  obtain ⟨s, hselector⟩ := hs.selector.resolve_left (hs.selector_given (by rw [hplugin]; decide))
  obtain ⟨g', result', hrun', -, hchanged, -, -, hcut, -⟩ :=
    removeElements_spec wf tree.allLegacy (tree.searchable _) hselector
  rw [hrun] at hrun'
  cases hrun'
  exact hcut.reports hchanged

theorem renameElements_reports (wf : f.WellFormed) (tree : f.LegacyTree root) (hs : step.Sound)
    (hrun : f.renameElements root step = (g, .ok result)) :
    Reports f g
      ((f.walk root).filter (f.keepsName (step.mapping.orElse (.dict [])))).length result := by
  obtain ⟨pairs, hmapping⟩ := Value.orElse_mapping hs.mapping
  obtain ⟨h, n, hn, t⟩ := renameAll_tally pairs (fun i hi => wf.lt_of_mem_walk tree.root_lt hi)
    tree.kind tree.name (wf.nodup_walk tree.root_lt) 0
  simp only [renameElements_eq, hmapping, hn] at hrun ⊢
  cases hrun
  exact t.reports rfl

theorem Amends.reports {finds : Fields → Bool} {e : Attributes.Editor}
    (a : Amends root step finds e) (wf : f.WellFormed) (tree : f.LegacyTree root)
    (hrun : f.perform root step = (g, .ok result)) : Reports f g 0 result := by
  obtain ⟨g', result', hrun', -, hchanged, hedited⟩ := a wf tree
  rw [hrun] at hrun'
  cases hrun'
  refine (hedited.tally (found_lt wf tree.root_lt finds) 0).reports ?_
  rw [hchanged, Nat.zero_add]

/-! ### Steps -/

theorem perform_reports (wf : f.WellFormed) (tree : f.LegacyTree root) (hs : step.Sound)
    (hrun : f.perform root step = (g, .ok result)) :
    Reports f g (f.idleEdits root step) result := by
  have amends (hplugin : step.plugin = .setAttributes ∨ step.plugin = .removeAttributes ∨
      step.plugin = .defaultFill) : Reports f g 0 result := by
    rcases amends_or_idle wf tree hs hplugin hrun with ⟨finds, e, a⟩ | ⟨rfl, -, hchanged⟩
    · exact a.reports wf tree hrun
    · exact reports_nothing hchanged
  unfold idleEdits
  cases hplugin : step.plugin with
  | removeRasterImages =>
    rw [perform, hplugin] at hrun
    exact removeRasterImages_reports wf tree hrun
  | removeElements =>
    rw [perform, hplugin] at hrun
    exact removeElements_reports wf tree hs hplugin hrun
  | renameElements =>
    rw [perform, hplugin] at hrun
    exact renameElements_reports wf tree hs hrun
  | removeAttributes => exact amends (.inr (.inl hplugin))
  | setAttributes => exact amends (.inl hplugin)
  | defaultFill => exact amends (.inr (.inr hplugin))

theorem runStep_reports (wf : f.WellFormed) (tree : f.LegacyTree root) (hs : step.Sound) :
    ∃ g result, f.runStep root step = (g, .ok result) ∧
      (result.errors = [] → Reports f g (f.idleEdits root step) result) := by
  obtain ⟨g, result, hrun, -⟩ := runStep_spec wf tree hs
  exact ⟨g, result, hrun, fun herrors =>
    perform_reports wf tree hs (perform_of_runStep hrun herrors)⟩

/-- A step that was read gives a result on every tree of legacy nodes whose kinds and names are
text.  Where it has no errors, the changes that it reports are the idle edits just when every
node is as it was, and more otherwise: the renamings of elements to the names that they have,
and the cut of a root that is a raster image and that nothing holds.  So where there are no
idle edits, no change is reported just when there is none. -/
theorem Reachable.changes_reported (hf : f.Reachable) (tree : f.LegacyTree root) {data : Value}
    (hread : Step.ofValue data = .ok step) :
    ∃ g result, f.runStep root step = (g, .ok result) ∧
      (result.errors = [] →
        (f.idleEdits root step : Int) ≤ result.changed ∧
        (Same f g ↔ result.changed = f.idleEdits root step) ∧
        (f.idleEdits root step = 0 → (result.changed = 0 ↔ Same f g))) := by
  obtain ⟨g, result, hrun, hreports⟩ :=
    runStep_reports hf.wellFormed tree (Step.sound_of_ofValue hread)
  refine ⟨g, result, hrun, fun herrors => ?_⟩
  obtain ⟨hle, hsame⟩ := hreports herrors
  refine ⟨hle, hsame, fun hidle => ?_⟩
  rw [hsame, hidle]
  rfl

def renameB : Value :=
  .dict [(.text "name", .text "rename_elements"),
    (.text "mapping", .dict [(.text "b", .text "d")])]

/-- Under a root the one renaming is reported, and it is a change. -/
theorem changes_reported_of_rooted :
    (Forest.empty.afterAll rootedCalls).Reachable ∧
      (Forest.empty.afterAll rootedCalls).LegacyTree 0 ∧
      ∃ step g result, Step.ofValue renameB = .ok step ∧
        (Forest.empty.afterAll rootedCalls).runStep 0 step = (g, .ok result) ∧
        result.errors = [] ∧ result.changed = 1 ∧
        ¬ Same (Forest.empty.afterAll rootedCalls) g := by
  have reach : (Forest.empty.afterAll rootedCalls).Reachable :=
    ⟨rootedCalls, by decide +kernel, rfl⟩
  have tree : (Forest.empty.afterAll rootedCalls).LegacyTree 0 := by decide +kernel
  have read : Step.ofValue renameB = .ok
      { plugin := .renameElements, mapping := .dict [(.text "b", .text "d")] } := rfl
  have reported : ((Forest.empty.afterAll rootedCalls).runStep 0
      { plugin := .renameElements, mapping := .dict [(.text "b", .text "d")] }).2.toOption.map
        (fun result => (result.errors, result.changed)) = some ([], 1) := by
    decide +kernel
  have idle : (Forest.empty.afterAll rootedCalls).idleEdits 0
      { plugin := .renameElements, mapping := .dict [(.text "b", .text "d")] } = 0 := by
    decide +kernel
  obtain ⟨g, result, hrun, hreports⟩ := reach.changes_reported tree read
  rw [hrun] at reported
  obtain ⟨herrors, hchanged⟩ := Prod.mk.inj (Option.some.inj reported)
  obtain ⟨-, -, hzero⟩ := hreports herrors
  refine ⟨reach, tree, _, g, result, read, hrun, herrors, hchanged, fun hsame => ?_⟩
  rw [(hzero idle).mpr hsame] at hchanged
  cases hchanged

def imageCalls : List Call :=
  [.wrap (.dict [(.text "name", .text "image"),
    (.text "attributes", .dict [(.text "href", .text "a.png")])])]

/-- Steps as a rule lists them: one takes raster images out, the other renames images to what
they are called. -/
def idleSteps : List Value :=
  [.dict [(.text "name", .text "remove_raster_images")],
    .dict [(.text "name", .text "rename_elements"),
      (.text "mapping", .dict [(.text "image", .text "image")])]]

/-- Each of the steps reports a change of the image, and leaves it as it was. -/
theorem idle_edits_reported :
    (Forest.empty.afterAll imageCalls).Reachable ∧
      (Forest.empty.afterAll imageCalls).LegacyTree 0 ∧
      ∀ data ∈ idleSteps, ∃ step g result, Step.ofValue data = .ok step ∧
        (Forest.empty.afterAll imageCalls).runStep 0 step = (g, .ok result) ∧
        result.errors = [] ∧ result.changed = 1 ∧
        Same (Forest.empty.afterAll imageCalls) g := by
  have reach : (Forest.empty.afterAll imageCalls).Reachable :=
    ⟨imageCalls, by decide +kernel, rfl⟩
  have tree : (Forest.empty.afterAll imageCalls).LegacyTree 0 := by decide +kernel
  have reports {data : Value} {step : Step} (read : Step.ofValue data = .ok step)
      (reported : ((Forest.empty.afterAll imageCalls).runStep 0 step).2.toOption.map
        (fun result => (result.errors, result.changed)) = some ([], 1))
      (idle : (Forest.empty.afterAll imageCalls).idleEdits 0 step = 1) :
      ∃ step g result, Step.ofValue data = .ok step ∧
        (Forest.empty.afterAll imageCalls).runStep 0 step = (g, .ok result) ∧
        result.errors = [] ∧ result.changed = 1 ∧
        Same (Forest.empty.afterAll imageCalls) g := by
    obtain ⟨g, result, hrun, hreports⟩ :=
      runStep_reports reach.wellFormed tree (Step.sound_of_ofValue read)
    rw [hrun] at reported
    obtain ⟨herrors, hchanged⟩ := Prod.mk.inj (Option.some.inj reported)
    refine ⟨step, g, result, read, hrun, herrors, hchanged, (hreports herrors).2.mpr ?_⟩
    rw [hchanged, idle]
    rfl
  refine ⟨reach, tree, fun data hdata => ?_⟩
  simp only [idleSteps, List.mem_cons, List.not_mem_nil, or_false] at hdata
  rcases hdata with rfl | rfl
  · exact reports rfl (by decide +kernel) (by decide +kernel)
  · exact reports rfl (by decide +kernel) (by decide +kernel)

end Forest
end SvgTree
