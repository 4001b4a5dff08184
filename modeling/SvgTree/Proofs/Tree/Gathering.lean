/-
A new node that takes existing nodes in, each as often as it is named.

What is named again moves to the end, so a node stands where it was named last.  The new nodes
among the items stand where they were made.  Their own items wait, and as long as none of these
names an existing node nothing that was gathered leaves.
-/
import Mathlib.Data.List.Dedup
import SvgTree.Proofs.Tree.Construction
import SvgTree.Proofs.Tree.Sprouting

namespace SvgTree

open Blueprint (named namedAll)

namespace Forest

variable {old : Nat} {f g h : Forest} {host n : NodeId} {items rest inner : List Blueprint}
  {b : Blueprint} {fields : Fields} {waiting mid left : List Pending} {ids : List NodeId}

theorem without_dedup_cons (l ids : List NodeId) (n : NodeId) :
    without (without l [n] ++ [n]) ids ++ ids.dedup =
      without l (n :: ids) ++ (n :: ids).dedup := by
  have hsplit : without (without l [n] ++ [n]) ids = without l (n :: ids) ++ without [n] ids := by
    rw [without, List.filter_append]
    exact congrArg (· ++ without [n] ids) (without_without l [n] ids)
  rw [hsplit, List.append_assoc]
  by_cases hn : n ∈ ids
  · rw [List.dedup_cons_of_mem hn]
    simp [without, hn]
  · rw [List.dedup_cons_of_notMem hn]
    simp [without, hn]

structure Gathering (old : Nat) (f : Forest) (host : NodeId) (waiting : List Pending) : Prop
    extends Poised old f waiting where
  apart : host ∉ hostsOf waiting
  new : old ≤ host
  host_lt : host < f.size
  unnamed : namesOf waiting = []

/-- From `f` to `g` the items became nodes of `host`, and what stood there and was named moved to
the end. -/
structure Gathered (old : Nat) (f g : Forest) (host : NodeId) (items : List Blueprint)
    (waiting left : List Pending) (ids : List NodeId) : Prop extends
    Gathering old g host left where
  size_le : f.size ≤ g.size
  holds_eq : ∀ {j : NodeId}, j < f.size → g.holds j = f.holds j
  parent_host : g.parent? host = f.parent? host
  children_host : g.children host = without (f.children host) ids ++ ids.dedup
  class_new : ∀ {j : NodeId}, f.size ≤ j → j < g.size →
    (g.node j).ofClass = (f.node host).ofClass
  made : List.Forall₂ (Made g left) items ids
  waits : ∀ p ∈ waiting, p ∈ left
  ids_lt : ∀ i ∈ ids, i < g.size
  late : ∀ i ∈ ids, i < old ∨ f.size ≤ i
  once_new : (ids.filter fun i => old ≤ i).Nodup

theorem Made.mono (m : Made h mid b n) (hlt : ∀ p ∈ mid, p.host < h.size)
    (hholds : ∀ {j : NodeId}, j < h.size → g.holds j = h.holds j) (hsub : ∀ p ∈ mid, p ∈ left) :
    Made g left b n := by
  cases m with
  | existing => exact .existing n
  | fresh hn hmem => exact .fresh ((hholds (hlt _ hmem)).trans hn) (hsub _ hmem)

namespace Gathered

theorem nil (x : Gathering old f host waiting) : Gathered old f f host [] waiting waiting [] where
  toGathering := x
  size_le := Nat.le_refl _
  holds_eq _ := rfl
  parent_host := rfl
  children_host := by rw [without_nil, List.dedup_nil, List.append_nil]
  class_new hle hlt := absurd hlt (Nat.not_lt.mpr hle)
  made := .nil
  waits _ hp := hp
  ids_lt _ hi := absurd hi List.not_mem_nil
  late _ hi := absurd hi List.not_mem_nil
  once_new := List.nodup_nil

theorem cons (a : Gathered old f h host [b] waiting mid [n])
    (y : Gathered old h g host rest mid left ids) (hhost : host < f.size) :
    Gathered old f g host (b :: rest) waiting left (n :: ids) where
  toGathering := y.toGathering
  size_le := Nat.le_trans a.size_le y.size_le
  holds_eq hj := (y.holds_eq (Nat.lt_of_lt_of_le hj a.size_le)).trans (a.holds_eq hj)
  parent_host := y.parent_host.trans a.parent_host
  children_host := by
    rw [y.children_host, a.children_host]
    exact without_dedup_cons _ _ _
  class_new {j} hle hlt := by
    rcases Nat.lt_or_ge j h.size with hj | hj
    · rw [ofClass_node_congr (y.holds_eq hj)]
      exact a.class_new hle hj
    · rw [y.class_new hj hlt, ofClass_node_congr (a.holds_eq hhost)]
  made := by
    obtain ⟨hb, -⟩ := List.forall₂_cons.mp a.made
    exact .cons (hb.mono (fun p hp => (a.ready p hp).host_lt) y.holds_eq y.waits) y.made
  waits p hp := y.waits p (a.waits p hp)
  ids_lt i hi := by
    rcases List.mem_cons.mp hi with rfl | hi
    · exact Nat.lt_of_lt_of_le (a.ids_lt i (List.mem_singleton_self i)) y.size_le
    · exact y.ids_lt i hi
  late i hi := by
    rcases List.mem_cons.mp hi with rfl | hi
    · exact a.late i (List.mem_singleton_self i)
    · exact (y.late i hi).imp_right (Nat.le_trans a.size_le)
  once_new := by
    rw [List.filter_cons]
    split
    · rename_i hold
      refine List.nodup_cons.mpr ⟨fun hmem => ?_, y.once_new⟩
      -- A new node comes before those that are made after it.
      have hlt := a.ids_lt n (List.mem_singleton_self n)
      rcases y.late n (List.mem_filter.mp hmem).1 with hn | hn
      · exact absurd hn (Nat.not_lt.mpr (of_decide_eq_true hold))
      · exact absurd hlt (Nat.not_lt.mpr hn)
    · exact y.once_new

end Gathered

namespace Gathering

theorem adopt {i : NodeId} (x : Gathering old f host waiting) (hi : i < old)
    (hadopt : f.adopt host i = .ok g) :
    Gathered old f g host [.existing i] waiting waiting [i] := by
  have hif : i < f.size := Nat.lt_of_lt_of_le hi x.le
  rcases adopt_cases x.wellFormed x.host_lt hif with ⟨-, hrun⟩ | ⟨g', hrun, -, wf, r⟩
  · rw [hadopt] at hrun
    cases hrun
  rw [hadopt] at hrun
  cases hrun
  have hsize := r.size_eq
  have hnot : host ∉ f.children host := by
    intro hmem
    obtain ⟨l, hl⟩ := x.wellFormed.grounded host
    exact x.wellFormed.not_above_of_mem_children hmem ⟨l, hl, hl.head_mem⟩
  have hnow : host ∉ without (f.children host) [i] ++ [i] := by
    rw [List.mem_append, List.mem_singleton]
    rintro (hmem | rfl)
    · exact hnot (mem_without.mp hmem).1
    · exact Nat.not_lt.mpr x.new hi
  have hbare : ∀ p ∈ waiting, g.children p.host = [] := by
    intro p hp
    have hne : p.host ≠ host := fun heq => x.apart (heq ▸ List.mem_map_of_mem hp)
    rw [r.children_other _ hne, x.bare p hp]
    rfl
  exact {
    wellFormed := wf
    le := hsize ▸ x.le
    ready := fun p hp => (x.ready p hp).mono (Nat.le_of_eq hsize.symm)
    bare := hbare
    distinct := x.distinct
    once := x.once
    apart := x.apart
    new := x.new
    host_lt := hsize ▸ x.host_lt
    unnamed := x.unnamed
    size_le := Nat.le_of_eq hsize.symm
    holds_eq := fun _ => r.holds_eq _
    parent_host := r.parent_other host hnow hnot
    children_host := r.children_host
    class_new := fun hle hlt => absurd (hsize ▸ hlt) (Nat.not_lt.mpr hle)
    made := .cons (.existing i) .nil
    waits := fun p hp => hp
    ids_lt := fun j hj => by rw [List.mem_singleton.mp hj, hsize]; exact hif
    late := fun j hj => .inl (by rw [List.mem_singleton.mp hj]; exact hi)
    once_new := (List.nodup_singleton i).filter _ }

theorem addUnder (x : Gathering old f host waiting) (fields : Fields)
    (hinner : namedAll inner = []) :
    Gathered old f (f.addUnder host fields).1 host [.fresh fields inner] waiting
      (⟨f.size, inner⟩ :: waiting) [f.size] := by
  have hone : namedAll [.fresh fields inner] = [] := by
    rw [namedAll_fresh, hinner]
    rfl
  have filling : Filling old f host [.fresh fields inner] waiting := {
    toPoised := x.toPoised
    apart := x.apart
    host_ready := ⟨x.new, x.host_lt, by rw [hone]; simp⟩
    all_once := by rw [hone, x.unnamed]; exact List.nodup_nil
    clear := fun c _ => by rw [hone, x.unnamed]; exact List.not_mem_nil }
  obtain ⟨y, hchildren⟩ := filling.addUnder
  have hsize := lt_size_addUnder x.host_lt fields
  have sprouts := Sprouts.addUnder x.host_lt rfl fields
  have hholds : (f.addUnder host fields).1.holds f.size = some (fields, (f.node host).ofClass) := by
    rw [holds_addUnder x.host_lt, if_pos rfl]
  exact {
    toPoised := y.toPoised
    apart := y.apart
    new := x.new
    host_lt := y.host_ready.host_lt
    unnamed := by
      rw [namesOf, List.flatMap_cons, hinner]
      exact x.unnamed
    size_le := sprouts.size_le
    holds_eq := sprouts.holds_eq
    parent_host := sprouts.parent_eq x.host_lt
    children_host := by
      rw [hchildren, without_eq_self]
      · rfl
      · intro c hc hmem
        exact Nat.ne_of_lt (x.wellFormed.child_lt hc) (List.mem_singleton.mp hmem)
    class_new := sprouts.class_eq
    made := .cons (.fresh hholds List.mem_cons_self) .nil
    waits := fun p hp => List.mem_cons_of_mem _ hp
    ids_lt := fun i hi => by rw [List.mem_singleton.mp hi]; exact hsize
    late := fun i hi => .inr (Nat.le_of_eq (List.mem_singleton.mp hi).symm)
    once_new := (List.nodup_singleton f.size).filter _ }

end Gathering

def Gatherable (old : Nat) (b : Blueprint) : Prop := (∃ i, b = .existing i ∧ i < old) ∨ named b = []

theorem attachItems_gathers (x : Gathering old f host waiting)
    (hitems : ∀ b ∈ items, Gatherable old b)
    (hrun : f.attachItems host items waiting = (g, .ok left)) :
    ∃ ids, Gathered old f g host items waiting left ids := by
  induction items generalizing f waiting with
  | nil =>
    cases hrun
    exact ⟨[], .nil x⟩
  | cons b rest ih =>
    have hrest : ∀ b ∈ rest, Gatherable old b := fun b hb => hitems b (List.mem_cons_of_mem _ hb)
    have hb := hitems b List.mem_cons_self
    cases b with
    | broken e => cases hrun
    | existing i =>
      have hi : i < old := by
        rcases hb with ⟨j, heq, hj⟩ | hnone
        · cases heq
          exact hj
        · cases hnone
      simp only [attachItems] at hrun
      split at hrun
      · cases hrun
      rename_i f₁ hadopt
      have step := x.adopt hi hadopt
      obtain ⟨ids, y⟩ := ih step.toGathering hrest hrun
      exact ⟨i :: ids, step.cons y x.host_lt⟩
    | fresh fields inner =>
      have hinner : namedAll inner = [] := by
        rcases hb with ⟨j, heq, -⟩ | hnone
        · cases heq
        · exact hnone
      have step := x.addUnder fields hinner
      simp only [attachItems, addUnder_snd x.host_lt] at hrun
      obtain ⟨ids, y⟩ := ih step.toGathering hrest hrun
      exact ⟨f.size :: ids, step.cons y x.host_lt⟩

end Forest
end SvgTree
