/-
Queries on a tree and on what its export is wrapped to.

An export leaves out an empty name, whatever is not of an element or a root, and a kind that
does not count comes back as that of an element.  None of this can matter to a selector: a tag
is never empty, only elements match, and what has become an element by being read back has
neither name nor attributes.  The tree that is read back has the places of the one that came
out, so a query finds the same places in both.
-/
import SvgTree.Proofs.Selector.Union
import SvgTree.Proofs.Tree.Places

namespace SvgTree

open Selector (parse)

/-! ### A node that is read back -/

namespace Value

/-- A value that does not count and the empty text that stands in for it are the same to every
test but the one for the empty text. -/
theorem isText_orElse_empty (v : Value) {t : String} (ht : t ≠ "") :
    (v.orElse (.text "")).isText t = v.isText t := by
  rw [orElse]
  split
  · rfl
  · rename_i hfalsy
    rw [Bool.eq_iff_iff, isText_iff, isText_iff]
    constructor
    · rintro ⟨⟩
      exact absurd rfl ht
    · rintro rfl
      simp [isTruthy, ht] at hfalsy

theorem isTruthy_orElse_empty (v : Value) : (v.orElse (.text "")).isTruthy = v.isTruthy := by
  rw [orElse]
  split
  · rfl
  · rename_i hfalsy
    rw [Bool.eq_false_iff.mpr hfalsy]
    rfl

end Value

namespace Fields

variable {n : Fields}

theorem reread_of_other (h : n.isContainer = false) :
    n.reread.name = .text "" ∧ n.reread.attributes = .empty := by
  rw [reread, h]
  exact ⟨rfl, rfl⟩

theorem isElement_of_other (h : n.isContainer = false) : n.isElement = false := by
  rw [isContainer, Bool.or_eq_false_iff] at h
  rw [isElement, h.1, h.2]
  rfl

end Fields

/-- A selector of the grammar accepts a node exactly when it accepts what is read back. -/
theorem Simple.accepts_reread {s : Simple} (h : s.isSupported = true → s.Formed) (n : Fields) :
    s.accepts n.reread = s.accepts n := by
  cases hcontainer : n.isContainer with
  | true =>
    have helement : n.reread.isElement = n.isElement := by
      rw [Fields.reread_of_container hcontainer, Fields.isElement, Value.isTruthy_orElse_empty]
      rfl
    cases s with
    | tag name =>
      have hne : name ≠ "" := (h rfl).1
      rw [Simple.accepts, Simple.accepts, helement, Fields.reread_of_container hcontainer,
        Value.isText_orElse_empty _ hne]
    | attr only name value =>
      have hname : (only.map fun t => n.reread.name.isText t) =
          only.map fun t => n.name.isText t := by
        refine Option.map_congr fun t ht => ?_
        have hne : t ≠ "" := ((h rfl).1 t ht).1
        rw [Fields.reread_of_container hcontainer, Value.isText_orElse_empty _ hne]
      rw [Simple.accepts, Simple.accepts, helement, hname, Fields.reread_of_container hcontainer]
    | unsupported text => rfl
  | false =>
    -- The node itself matches nothing; what is read back may count as an element by now.
    obtain ⟨hname, hattributes⟩ := Fields.reread_of_other hcontainer
    have helement := Fields.isElement_of_other hcontainer
    cases s with
    | tag name =>
      have hne : "" ≠ name := (h rfl).1.symm
      rw [Simple.accepts, Simple.accepts, helement, hname]
      simp [Value.isText, hne]
    | attr only name value =>
      rw [Simple.accepts, Simple.accepts, helement, hattributes]
      exact Bool.and_false _
    | unsupported text => rfl

theorem Selector.accepts_reread (source : String) (n : Fields) :
    (parse source).accepts n.reread = (parse source).accepts n := by
  rw [accepts, accepts, alternatives_parse, List.any_map, List.any_map]
  refine List.any_congr rfl fun piece => ?_
  exact Simple.accepts_reread Simple.formed_of_supported n

/-! ### The places that a query finds -/

namespace Forest

variable {f g : Forest} {r s : NodeId}

def acceptedPlaces (f : Forest) (r : NodeId) (s : Selector) : List (List Nat) :=
  (f.places r).filter fun path => (f.fieldsAt? r path).any s.accepts

theorem standsAt_accepted (wf : f.WellFormed) (hr : r < f.size) (s : Selector) :
    List.Forall₂ (f.StandsAt r) (f.accepted s (f.walk r)) (f.acceptedPlaces r s) := by
  let matched : Option NodeId → Bool := fun o => o.any fun i => s.accepts (f.node i).toFields
  have hplace : ∀ path, matched (f.at? r path) = (f.fieldsAt? r path).any s.accepts := by
    intro path
    rw [fieldsAt?, Option.any_map]
  have hmap : (f.accepted s (f.walk r)).map some = (f.acceptedPlaces r s).map (f.at? r) :=
    calc (f.accepted s (f.walk r)).map some
        = ((f.walk r).map some).filter matched := by
          rw [List.filter_map]
          rfl
      _ = ((f.places r).map (f.at? r)).filter matched := by rw [wf.map_at?_places hr]
      _ = (f.acceptedPlaces r s).map (f.at? r) := by
          rw [List.filter_map]
          exact congrArg _ (List.filter_congr fun path _ => hplace path)
  have hat : List.Forall₂ (fun i path => some i = f.at? r path) (f.accepted s (f.walk r))
      (f.acceptedPlaces r s) := by
    rw [← List.forall₂_map_left_iff (R := fun o path => o = f.at? r path),
      ← List.forall₂_map_right_iff (R := Eq), List.forall₂_eq_eq_eq]
    exact hmap
  exact hat.imp fun i path h => wf.standsAt hr h.symm

/-- A tree that holds everywhere what is read back of another has the places that a selector
accepts in the same order. -/
theorem acceptedPlaces_reread (wf : f.WellFormed) (wg : g.WellFormed) (hr : r < f.size)
    (hs : s < g.size) (h : ∀ path, g.fieldsAt? s path = (f.fieldsAt? r path).map Fields.reread)
    (source : String) :
    g.acceptedPlaces s (parse source) = f.acceptedPlaces r (parse source) := by
  have hplaces : g.places s = f.places r :=
    places_congr wf wg hr hs fun path => by rw [h, Option.isSome_map]
  rw [acceptedPlaces, acceptedPlaces, hplaces]
  refine List.filter_congr fun path _ => ?_
  rw [h, Option.any_map]
  exact congrArg (Option.any · _) (funext fun n => Selector.accepts_reread source n)

theorem kinds_reread (wf : f.WellFormed) (wg : g.WellFormed) (hr : r < f.size) (hs : s < g.size)
    (h : ∀ path, g.fieldsAt? s path = (f.fieldsAt? r path).map Fields.reread)
    (hkinds : ∀ i ∈ f.walk r, ∃ k, (f.node i).kind = .text k) :
    ∀ j ∈ g.walk s, ∃ k, (g.node j).kind = .text k := by
  intro j hj
  have hmem : some j ∈ (g.places s).map (g.at? s) := by
    rw [wg.map_at?_places hs]
    exact List.mem_map_of_mem hj
  obtain ⟨path, -, hpath⟩ := List.mem_map.mp hmem
  have hfields := h path
  rw [fieldsAt?, hpath, Option.map_some] at hfields
  obtain ⟨n, hn, hreread⟩ := Option.map_eq_some_iff.mp hfields.symm
  obtain ⟨i, hi, rfl⟩ := Option.map_eq_some_iff.mp hn
  obtain ⟨k, hk⟩ := hkinds i (wf.mem_walk_of_at? hr hi)
  have hkind : (g.node j).kind = (f.node i).kind.orElse (.text "element") := by rw [← hreread]; rfl
  rw [hkind, hk, Value.orElse]
  split
  · exact ⟨k, rfl⟩
  · exact ⟨"element", rfl⟩

/-- A reachable tree whose kinds are text comes out, and its export can be wrapped in any
reachable forest.  Every selector then finds in the new tree the places that it finds in the
old one, in the same order: what it finds in either stands at these places, and nowhere
else. -/
theorem Reachable.queries_survive_export (h : f.Reachable) (hr : r < f.size)
    (hkinds : ∀ i ∈ f.walk r, ∃ k, (f.node i).kind = .text k) {k : Forest} (hk : k.Reachable) :
    ∃ out k' s, f.toRaw r = .ok out ∧ k.wrap out = (k', .ok s) ∧
      ∀ source, ∃ found found' paths, f.queryAll r (parse source) = .ok found ∧
        k'.queryAll s (parse source) = .ok found' ∧
        List.Forall₂ (f.StandsAt r) found paths ∧ List.Forall₂ (k'.StandsAt s) found' paths := by
  have wf := h.wellFormed
  obtain ⟨k', s, hwrap, -⟩ := wrap_export wf hr hk.wellFormed
  have hnamed := (wf.quiet_export hr).named_eq
  obtain ⟨hbuilt, hs, -, wk'⟩ := wrap_built hk.wellFormed (by rw [hnamed]; simp)
    (by rw [hnamed]; exact List.nodup_nil) hwrap
  have hfields := hbuilt.fieldsAt?_export wf hr
  have hkinds' := kinds_reread wf wk' hr hs hfields hkinds
  have hhash := fun i hi => Value.isHashable_of_text (hkinds i hi)
  have hhash' := fun j hj => Value.isHashable_of_text (hkinds' j hj)
  refine ⟨_, k', s, wf.toRaw_eq hr hhash, hwrap, fun source => ?_⟩
  refine ⟨_, _, f.acceptedPlaces r (parse source), matching_eq hhash, matching_eq hhash',
    standsAt_accepted wf hr _, ?_⟩
  rw [← acceptedPlaces_reread wf wk' hr hs hfields]
  exact standsAt_accepted wk' hs _

/-- A node of an empty kind with a name and an attribute over the root, and an element that has
lost its name. -/
def unlabelledCalls : List Call :=
  rootedCalls ++
    [.create .legacy none (.text "") (.text "c") .null (.dict [(.text "id", .text "x")])
      (.list [.node 0]),
    .rename 3 (.text "")]

/-- The node of an empty kind comes back as an element, and still only the two elements below
the root are found, under the places that they had. -/
theorem queries_survive_export_of_unlabelled :
    (Forest.empty.afterAll unlabelledCalls).Reachable ∧
      4 < (Forest.empty.afterAll unlabelledCalls).size ∧
      (∀ i ∈ (Forest.empty.afterAll unlabelledCalls).walk 4,
        ∃ k, ((Forest.empty.afterAll unlabelledCalls).node i).kind = .text k) ∧
      (Forest.empty.afterAll unlabelledCalls).queryAll 4 (parse "c, a, [id=\"x\"]") =
        .ok [1, 2] ∧
      ∃ out k s found, (Forest.empty.afterAll unlabelledCalls).toRaw 4 = .ok out ∧
        Forest.empty.wrap out = (k, .ok s) ∧
        k.queryAll s (parse "c, a, [id=\"x\"]") = .ok found ∧
        List.Forall₂ (k.StandsAt s) found [[0, 0], [0, 1]] := by
  have reach : (Forest.empty.afterAll unlabelledCalls).Reachable :=
    ⟨unlabelledCalls, by decide +kernel, rfl⟩
  have root : 4 < (Forest.empty.afterAll unlabelledCalls).size := by decide +kernel
  have kinds : ∀ i ∈ (Forest.empty.afterAll unlabelledCalls).walk 4,
      ∃ k, ((Forest.empty.afterAll unlabelledCalls).node i).kind = .text k := by decide +kernel
  have first : (Forest.empty.afterAll unlabelledCalls).at? 4 [0, 0] = some 1 := by decide +kernel
  have second : (Forest.empty.afterAll unlabelledCalls).at? 4 [0, 1] = some 2 := by
    decide +kernel
  have query : ((Forest.empty.afterAll unlabelledCalls).queryAll 4
      (parse "c, a, [id=\"x\"]")).toOption = some [1, 2] := by decide +kernel
  obtain ⟨out, k, s, hraw, hwrap, queries⟩ :=
    reach.queries_survive_export root kinds ⟨[], trivial, rfl⟩
  obtain ⟨found, found', paths, hfound, hfound', hpaths, hpaths'⟩ := queries "c, a, [id=\"x\"]"
  rw [hfound] at query
  cases query
  cases hpaths with
  | cons hone hrest =>
    cases hrest with
    | cons htwo hnil =>
      cases hnil
      cases (hone _).mp first
      cases (htwo _).mp second
      exact ⟨reach, root, kinds, hfound, out, k, s, found', hraw, hwrap, hfound', hpaths'⟩

end Forest
end SvgTree
