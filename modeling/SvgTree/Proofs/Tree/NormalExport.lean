/-
The export of a wrapped tree is its normal form.

Building a tree and exporting one both work with a list of nodes to do; here both are known by
what they do at one node, and an induction over the tree compares this with the recursion of
the normal form.  Every node that is built gets a kind that counts, so the export is in normal
form already, and wrapping it and exporting again changes nothing.
-/
import SvgTree.Proofs.Tree.NormalForm

namespace SvgTree

open Blueprint (named namedAll ofValue)
open Value (field lookups normal normalNode TextTypes)

namespace Blueprint

theorem named_of_mem {l : List Blueprint} (h : namedAll l = []) {b : Blueprint} (hb : b ∈ l) :
    b.named = [] := by
  induction l with
  | nil => exact absurd hb List.not_mem_nil
  | cons c rest ih =>
    rw [namedAll, List.append_eq_nil_iff] at h
    rcases List.mem_cons.mp hb with rfl | hb
    · exact h.1
    · exact ih h.2 hb

theorem named_of_mem_items {es : List (Value × Value)} {fields : Fields}
    (hread : Fields.ofEntries es = .ok fields) (hnew : named (ofValue (.dict es)) = []) :
    ∀ w ∈ (Value.dict es).items, named (ofValue w) = [] := by
  rw [ofValue, hread, ofFields, named, childrenOf_eq] at hnew
  intro w hw
  rw [Value.items] at hw
  cases hitems : field "children" es with
  | list l =>
    rw [hitems] at hnew hw
    rw [ofItems, ofList_eq] at hnew
    exact named_of_mem hnew (List.mem_map_of_mem hw)
  | _ =>
    rw [hitems] at hw
    cases hw

end Blueprint

namespace Forest

variable {f g : Forest} {raw v : Value} {r n : NodeId}

theorem Built.of_attrs {m : Attributes} (h : g.Built (ofValue (.attrs m)) n) :
    Fields.ofEntries (lookups (.attrs m)) = .ok (g.node n).toFields ∧ g.children n = [] := by
  rw [ofValue] at h
  cases hfields : Fields.ofAttributes m with
  | error e =>
    rw [hfields] at h
    cases h
  | ok fields =>
    rw [hfields] at h
    obtain ⟨heq, hitems⟩ := h.toFields
    refine ⟨by rw [heq, Fields.ofEntries_lookups_attrs hfields], ?_⟩
    generalize g.children n = ids at hitems
    split at hitems
    · cases hitems with
      | cons hbroken _ => cases hbroken
    · cases hitems
      rfl

/-- A new node was read from what the raw one answers, and what stands under it was built in
order from what stands under the raw one. -/
theorem Built.of_new (h : g.Built (ofValue v) n) (hnew : named (ofValue v) = []) :
    Fields.ofEntries v.lookups = .ok (g.node n).toFields ∧
      List.Forall₂ (fun w m => named (ofValue w) = [] ∧ g.Built (ofValue w) m) v.items
        (g.children n) ∧
      v.normal = normalNode v.lookups (v.items.map normal) := by
  cases v with
  | dict es =>
    obtain ⟨hread, hitems⟩ := h.of_dict
    have hnamed := Blueprint.named_of_mem_items hread hnew
    exact ⟨hread, (List.forall₂_and_left _ _).mpr ⟨hnamed, hitems⟩, Value.normal_dict es⟩
  | attrs m =>
    obtain ⟨hread, hchildren⟩ := h.of_attrs
    refine ⟨hread, ?_, by rw [normal]; rfl⟩
    rw [hchildren]
    exact .nil
  | node i => cases hnew
  | _ => cases h

/-- What is so of a new node when it is so, in order, of the nodes under it, is so of every new
tree. -/
theorem Built.new_induction {motive : Value → NodeId → Prop} (wf : g.WellFormed)
    (step : ∀ v i, i < g.size → Fields.ofEntries v.lookups = .ok (g.node i).toFields →
      v.normal = normalNode v.lookups (v.items.map normal) →
      List.Forall₂ motive v.items (g.children i) → motive v i)
    (hn : n < g.size) (h : g.Built (ofValue v) n) (hnew : named (ofValue v) = []) :
    motive v n := by
  refine wf.tree_induction (motive := fun n => ∀ v, g.Built (ofValue v) n →
    named (ofValue v) = [] → motive v n) ?_ hn v h hnew
  intro i hi ih v h hnew
  obtain ⟨hread, hitems, hnormal⟩ := h.of_new hnew
  refine step v i hi hread hnormal (List.forall₂_iff_get.mpr ⟨hitems.length_eq, ?_⟩)
  intro k hk hk'
  obtain ⟨hnamed, hbuilt⟩ := hitems.get hk hk'
  exact ih _ (List.getElem_mem hk') _ hbuilt hnamed

/-- What a new tree was built from is exported in its normal form. -/
theorem Built.export_eq_normal (wf : g.WellFormed) (hn : n < g.size)
    (h : g.Built (ofValue v) n) (hnew : named (ofValue v) = []) :
    g.exportFrom g.size n = v.normal := by
  refine h.new_induction (motive := fun v n => g.exportFrom g.size n = v.normal) wf ?_ hn hnew
  intro v i hi hread hnormal hitems
  have hchildren : (g.children i).map (g.exportFrom g.size) = v.items.map normal := by
    rw [← List.forall₂_eq_eq_eq, List.forall₂_map_left_iff, List.forall₂_map_right_iff]
    exact hitems.flip
  rw [wf.exportFrom_eq hi, Fields.exported_eq_normalNode hread, hchildren, hnormal]

theorem Built.kinds (wf : g.WellFormed) (hn : n < g.size) (h : g.Built (ofValue v) n)
    (hnew : named (ofValue v) = []) (htypes : TextTypes v) :
    ∀ j ∈ g.walk n, ∃ t, (g.node j).kind = .text t ∧ t ≠ "" := by
  refine h.new_induction (motive := fun v n => TextTypes v →
    ∀ j ∈ g.walk n, ∃ t, (g.node j).kind = .text t ∧ t ≠ "") wf ?_ hn hnew htypes
  intro v i hi hread _ hitems htypes j hj
  rw [wf.walk_eq hi, List.mem_cons, List.mem_flatMap] at hj
  rcases hj with rfl | ⟨c, hc, hj⟩
  · rw [(of_ofEntries hread).1]
    exact Value.exists_text_orElse (htypes [] v rfl)
  · obtain ⟨k, hk, rfl⟩ := List.mem_iff_getElem.mp hc
    have hk' : k < v.items.length := hitems.length_eq ▸ hk
    exact hitems.get hk' hk (htypes.item hk') j hj

/-- An export is its own normal form, where the kinds count. -/
theorem WellFormed.normal_export (wf : g.WellFormed) (hn : n < g.size)
    (hkinds : ∀ j ∈ g.walk n, (g.node j).kind.isTruthy = true) :
    (g.exportFrom g.size n).normal = g.exportFrom g.size n := by
  refine wf.tree_induction (motive := fun n => (∀ j ∈ g.walk n, (g.node j).kind.isTruthy = true) →
    (g.exportFrom g.size n).normal = g.exportFrom g.size n) ?_ hn hkinds
  intro i hi ih hkinds
  have hchildren : ((g.children i).map (g.exportFrom g.size)).map normal =
      (g.children i).map (g.exportFrom g.size) := by
    rw [List.map_map]
    refine List.map_congr_left fun c hc => ih c hc fun j hj => hkinds j ?_
    exact (wf.walk_child_infix hi hc).subset hj
  rw [wf.exportFrom_eq hi, Fields.normal_exported (hkinds i (wf.mem_walk_self hi)), hchildren]

theorem WellFormed.textTypes_export (wf : g.WellFormed) (hn : n < g.size)
    (hkinds : ∀ j ∈ g.walk n, ∃ t, (g.node j).kind = .text t ∧ t ≠ "") :
    TextTypes (g.exportFrom g.size n) := by
  intro path w hw
  rw [rawAt?_export wf hn] at hw
  obtain ⟨j, hj, rfl⟩ := Option.map_eq_some_iff.mp hw
  have hmem := wf.mem_walk_of_at? hn hj
  obtain ⟨t, ht, -⟩ := hkinds j hmem
  rw [wf.exportFrom_eq (wf.lt_of_mem_walk hn hmem), Fields.exported_eq, lookups, field,
    Fields.field?_type, ht]
  rfl

/-- A raw tree that names no existing node is exported in its normal form once it is wrapped,
where its types are texts or missing. -/
theorem normal_of_wrap (wf : f.WellFormed) (hnew : named (ofValue raw) = [])
    (htypes : TextTypes raw) (hwrap : f.wrap raw = (g, .ok r)) :
    g.toRaw r = .ok raw.normal ∧ raw.normal.normal = raw.normal ∧ g.WellFormed ∧ r < g.size ∧
      g.exportFrom g.size r = raw.normal ∧ TextTypes raw.normal := by
  obtain ⟨hbuilt, hr, -, wf'⟩ := wrap_built wf (by simp [hnew]) (by simp [hnew]) hwrap
  have hexport := hbuilt.export_eq_normal wf' hr hnew
  have hkinds := hbuilt.kinds wf' hr hnew htypes
  have hhash : ∀ j ∈ g.walk r, (g.node j).kind.isHashable = true := by
    intro j hj
    obtain ⟨t, ht, -⟩ := hkinds j hj
    rw [ht]
    rfl
  have htruthy : ∀ j ∈ g.walk r, (g.node j).kind.isTruthy = true := by
    intro j hj
    obtain ⟨t, ht, hne⟩ := hkinds j hj
    rw [ht]
    simpa [Value.isTruthy] using hne
  have hraw := wf'.toRaw_eq hr hhash
  have hstable := wf'.normal_export hr htruthy
  have htext := wf'.textTypes_export hr hkinds
  rw [hexport] at hraw hstable htext
  exact ⟨hraw, hstable, wf', hr, hexport, htext⟩

/-- A raw tree that was wrapped and names no existing node comes out in its normal form, where
its types are texts, null or missing.  The normal form is its own normal form: it can be
wrapped in any forest, and comes out as it is. -/
theorem Reachable.export_normal (h : f.Reachable) (hnew : named (ofValue raw) = [])
    (htypes : TextTypes raw) (hwrap : f.wrap raw = (g, .ok r)) :
    g.toRaw r = .ok raw.normal ∧ raw.normal.normal = raw.normal ∧
      ∀ k : Forest, k.Reachable →
        ∃ k' s, k.wrap raw.normal = (k', .ok s) ∧ k'.toRaw s = .ok raw.normal := by
  obtain ⟨hraw, hstable, wf, hr, hexport, htext⟩ := normal_of_wrap h.wellFormed hnew htypes hwrap
  refine ⟨hraw, hstable, fun k hk => ?_⟩
  -- an export names no node of any forest, so the first part holds of it as well
  obtain ⟨k', s, hrun, -⟩ := wrap_export wf hr hk.wellFormed
  have hquiet := (wf.quiet_export hr).named_eq
  rw [hexport] at hrun hquiet
  obtain ⟨hagain, -⟩ := normal_of_wrap hk.wellFormed hquiet htext hrun
  rw [hstable] at hagain
  exact ⟨k', s, hrun, hagain⟩

/-- A root with two records of one name among its ready attributes, over a comment that has a
name and over a group without a type. -/
def sketched : Value :=
  .dict [(.text "type", .text "root"),
    (.text "attrs", .dict [(.text "a", .attr ⟨"fill", "red", by decide⟩),
      (.text "b", .attr ⟨"d", "M0", by decide⟩), (.text "c", .attr ⟨"fill", "blue", by decide⟩)]),
    (.text "children", .list [
      .dict [(.text "value", .text "v"), (.text "name", .text "n"), (.text "type", .text "comment")],
      .dict [(.text "name", .text "g"), (.text "attributes", .null), (.text "type", .text "")]])]

/-- The later record takes the place of the earlier one, the comment loses its name, and the
group gets a type, attributes and children. -/
theorem export_normal_of_sketched :
    Forest.empty.Reachable ∧ named (ofValue sketched) = [] ∧ TextTypes sketched ∧
      ∃ g, Forest.empty.wrap sketched = (g, .ok 0) ∧
        g.toRaw 0 = .ok (.dict [(.text "type", .text "root"),
          (.text "attributes", .dict [(.text "fill", .text "blue"), (.text "d", .text "M0")]),
          (.text "children", .list [
            .dict [(.text "type", .text "comment"), (.text "value", .text "v")],
            .dict [(.text "type", .text "element"), (.text "name", .text "g"),
              (.text "attributes", .dict []), (.text "children", .list [])]])]) ∧
        sketched.normal.normal = sketched.normal := by
  have reach : Forest.empty.Reachable := ⟨[], trivial, rfl⟩
  have new : named (ofValue sketched) = [] := by decide +kernel
  have types : TextTypes sketched := by
    refine Value.textTypes_of_items rfl fun w hw => ?_
    have leaf : w.items = [] ∧ (field "type" w.lookups).isLabel = true := by
      rcases List.mem_cons.mp hw with rfl | hw
      · exact ⟨rfl, rfl⟩
      · rcases List.mem_cons.mp hw with rfl | hw
        · exact ⟨rfl, rfl⟩
        · cases hw
    refine Value.textTypes_of_items leaf.2 fun u hu => ?_
    rw [leaf.1] at hu
    cases hu
  have done : (Forest.empty.wrap sketched).2.toOption = some 0 := by decide +kernel
  cases hdone : (Forest.empty.wrap sketched).2 with
  | error e =>
    rw [hdone] at done
    cases done
  | ok r =>
    rw [hdone] at done
    cases done
    have hwrap : Forest.empty.wrap sketched = ((Forest.empty.wrap sketched).1, .ok 0) :=
      Prod.ext rfl hdone
    obtain ⟨hraw, hstable, -⟩ := reach.export_normal new types hwrap
    exact ⟨reach, new, types, _, hwrap, hraw, hstable⟩

end Forest
end SvgTree
