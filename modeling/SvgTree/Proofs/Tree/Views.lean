/-
What the edits of a forest do to its views.

A forest is read through `size`, `parent?`, `children` and `holds`, and later modules never
look into a node.  Every edit is described here once by what it does to each of the four.
-/
import SvgTree.Tree.Splice

namespace SvgTree
namespace Forest

def holds (f : Forest) (i : NodeId) : Option (Fields × NodeClass) :=
  (f.node? i).map fun n => (n.toFields, n.ofClass)

theorem ext_node? {f g : Forest} (h : ∀ i, f.node? i = g.node? i) : f = g := by
  cases f
  cases g
  exact congrArg Forest.mk (Array.ext_getElem? h)

theorem node?_eq_none_iff {f : Forest} {i : NodeId} : f.node? i = none ↔ f.size ≤ i :=
  Array.getElem?_eq_none_iff

theorem exists_node?_of_lt {f : Forest} {i : NodeId} (h : i < f.size) :
    ∃ n, f.node? i = some n := by
  cases hn : f.node? i with
  | none => exact absurd h (Nat.not_lt.mpr (node?_eq_none_iff.mp hn))
  | some n => exact ⟨n, rfl⟩

theorem lt_size_of_parent? {f : Forest} {i p : NodeId} (h : f.parent? i = some p) :
    i < f.size := by
  refine Nat.lt_of_not_le fun hle => ?_
  simp [parent?, node?_eq_none_iff.mpr hle] at h

theorem lt_size_of_mem_children {f : Forest} {p c : NodeId} (h : c ∈ f.children p) :
    p < f.size := by
  refine Nat.lt_of_not_le fun hle => ?_
  simp [children, node?_eq_none_iff.mpr hle] at h

theorem node?_congr {f g : Forest} {i : NodeId} (hh : f.holds i = g.holds i)
    (hp : f.parent? i = g.parent? i) (hc : f.children i = g.children i) :
    f.node? i = g.node? i := by
  unfold holds at hh
  unfold parent? at hp
  unfold children at hc
  cases hf : f.node? i with
  | none =>
    cases hg : g.node? i with
    | none => rfl
    | some n => simp [hf, hg] at hh
  | some m =>
    cases hg : g.node? i with
    | none => simp [hf, hg] at hh
    | some n =>
      simp only [hf, hg, Option.map_some, Option.some.injEq, Prod.mk.injEq, Option.bind_some,
        Option.getD_some] at hh hp hc
      cases m
      cases n
      simp_all

theorem node_congr {f g : Forest} {i : NodeId} (h : f.holds i = g.holds i) :
    (f.node i).toFields = (g.node i).toFields ∧ (f.node i).ofClass = (g.node i).ofClass := by
  unfold holds at h
  unfold node
  cases hf : f.node? i with
  | none =>
    cases hg : g.node? i with
    | none => exact ⟨rfl, rfl⟩
    | some n => simp [hf, hg] at h
  | some m =>
    cases hg : g.node? i with
    | none => simp [hf, hg] at h
    | some n =>
      simp only [hf, hg, Option.map_some, Option.some.injEq, Prod.mk.injEq] at h
      exact h

theorem toFields_node_congr {f g : Forest} {i : NodeId} (h : f.holds i = g.holds i) :
    (f.node i).toFields = (g.node i).toFields := (node_congr h).1

theorem ofClass_node_congr {f g : Forest} {i : NodeId} (h : f.holds i = g.holds i) :
    (f.node i).ofClass = (g.node i).ofClass := (node_congr h).2

theorem toFields_of_holds {f : Forest} {i : NodeId} {fields : Fields} {ofClass : NodeClass}
    (h : f.holds i = some (fields, ofClass)) : (f.node i).toFields = fields := by
  unfold holds at h
  unfold node
  cases hn : f.node? i with
  | none =>
    rw [hn] at h
    cases h
  | some m =>
    rw [hn] at h
    cases h
    rfl

theorem ofClass_of_holds {f : Forest} {i : NodeId} {fields : Fields} {ofClass : NodeClass}
    (h : f.holds i = some (fields, ofClass)) : (f.node i).ofClass = ofClass := by
  unfold holds at h
  unfold node
  cases hn : f.node? i with
  | none =>
    rw [hn] at h
    cases h
  | some m =>
    rw [hn] at h
    cases h
    rfl

/-! ### A change of one node -/

theorem node?_modify (f : Forest) (i j : NodeId) (g : Node → Node) :
    (f.modify i g).node? j = if i = j then (f.node? j).map g else f.node? j := by
  unfold node? modify
  rw [Array.getElem?_modify]

@[simp] theorem size_modify (f : Forest) (i : NodeId) (g : Node → Node) :
    (f.modify i g).size = f.size :=
  Array.size_modify

theorem parent?_modify {f : Forest} {i j : NodeId} {g : Node → Node}
    (hg : ∀ n, (g n).parent = n.parent) : (f.modify i g).parent? j = f.parent? j := by
  unfold parent?
  rw [node?_modify]
  split
  · cases f.node? j with
    | none => rfl
    | some n => exact hg n
  · rfl

theorem children_modify {f : Forest} {i j : NodeId} {g : Node → Node}
    (hg : ∀ n, (g n).children = n.children) : (f.modify i g).children j = f.children j := by
  unfold children
  rw [node?_modify]
  split
  · cases f.node? j with
    | none => rfl
    | some n => exact hg n
  · rfl

theorem holds_modify {f : Forest} {i j : NodeId} {g : Node → Node}
    (hg : ∀ n, (g n).toFields = n.toFields ∧ (g n).ofClass = n.ofClass) :
    (f.modify i g).holds j = f.holds j := by
  unfold holds
  rw [node?_modify]
  split
  · cases f.node? j with
    | none => rfl
    | some n => simp [hg n]
  · rfl

@[simp] theorem size_setParent (f : Forest) (i : NodeId) (p : Option NodeId) :
    (f.setParent i p).size = f.size :=
  size_modify ..

theorem parent?_setParent (f : Forest) (i j : NodeId) (p : Option NodeId) :
    (f.setParent i p).parent? j = if i = j ∧ j < f.size then p else f.parent? j := by
  unfold parent? setParent
  rw [node?_modify]
  by_cases hij : i = j
  · by_cases hj : j < f.size
    · obtain ⟨n, hn⟩ := exists_node?_of_lt hj
      simp [hij, hj, hn]
    · have hn := node?_eq_none_iff.mpr (Nat.le_of_not_lt hj)
      simp [hij, hj, hn]
  · simp [hij]

@[simp] theorem children_setParent (f : Forest) (i j : NodeId) (p : Option NodeId) :
    (f.setParent i p).children j = f.children j :=
  children_modify fun _ => rfl

@[simp] theorem holds_setParent (f : Forest) (i j : NodeId) (p : Option NodeId) :
    (f.setParent i p).holds j = f.holds j :=
  holds_modify fun _ => ⟨rfl, rfl⟩

@[simp] theorem size_setChildren (f : Forest) (i : NodeId) (l : List NodeId) :
    (f.setChildren i l).size = f.size :=
  size_modify ..

theorem children_setChildren (f : Forest) (i j : NodeId) (l : List NodeId) :
    (f.setChildren i l).children j = if i = j ∧ j < f.size then l else f.children j := by
  unfold children setChildren
  rw [node?_modify]
  by_cases hij : i = j
  · by_cases hj : j < f.size
    · obtain ⟨n, hn⟩ := exists_node?_of_lt hj
      simp [hij, hj, hn]
    · have hn := node?_eq_none_iff.mpr (Nat.le_of_not_lt hj)
      simp [hij, hj, hn]
  · simp [hij]

@[simp] theorem parent?_setChildren (f : Forest) (i j : NodeId) (l : List NodeId) :
    (f.setChildren i l).parent? j = f.parent? j :=
  parent?_modify fun _ => rfl

@[simp] theorem holds_setChildren (f : Forest) (i j : NodeId) (l : List NodeId) :
    (f.setChildren i l).holds j = f.holds j :=
  holds_modify fun _ => ⟨rfl, rfl⟩

theorem modify_push_eq_setChildren (f : Forest) (i c : NodeId) :
    (f.modify i fun n => { n with children := n.children ++ [c] }) =
      f.setChildren i (f.children i ++ [c]) := by
  refine ext_node? fun j => ?_
  unfold setChildren children
  rw [node?_modify, node?_modify]
  by_cases hij : i = j
  · subst hij
    cases f.node? i <;> simp
  · simp [hij]

/-! ### The attributes of one node -/

theorem attributes_setAttributes {f : Forest} {i : NodeId} (hi : i < f.size) (m : Attributes) :
    ((f.setAttributes i m).node i).attributes = m := by
  obtain ⟨n, hn⟩ := exists_node?_of_lt hi
  unfold node setAttributes
  rw [node?_modify, if_pos rfl, hn]
  rfl

theorem setAttributes_setAttributes (f : Forest) (i : NodeId) (m k : Attributes) :
    (f.setAttributes i m).setAttributes i k = f.setAttributes i k := by
  refine ext_node? fun j => ?_
  unfold setAttributes
  rw [node?_modify, node?_modify, node?_modify]
  by_cases hij : i = j
  · cases f.node? j <;> simp [hij]
  · simp [hij]

theorem setAttributes_self (f : Forest) (i : NodeId) :
    f.setAttributes i (f.node i).attributes = f := by
  refine ext_node? fun j => ?_
  unfold setAttributes node
  rw [node?_modify]
  by_cases hij : i = j
  · subst hij
    cases f.node? i <;> simp
  · simp [hij]

theorem setAttributes_eq_self_iff {f : Forest} {i : NodeId} (hi : i < f.size) {m : Attributes} :
    f.setAttributes i m = f ↔ m = (f.node i).attributes := by
  constructor
  · intro h
    rw [← attributes_setAttributes hi m, h]
  · intro h
    rw [h, setAttributes_self]

/-! ### A new node -/

theorem node?_add (f : Forest) (n : Node) (i : NodeId) :
    (f.add n).1.node? i = if i = f.size then some n else f.node? i :=
  Array.getElem?_push

@[simp] theorem size_add (f : Forest) (n : Node) : (f.add n).1.size = f.size + 1 :=
  Array.size_push ..

theorem lt_size_add (f : Forest) (n : Node) : f.size < (f.add n).1.size := by
  rw [size_add]
  exact Nat.lt_succ_self _

theorem parent?_add (f : Forest) (n : Node) (i : NodeId) :
    (f.add n).1.parent? i = if i = f.size then n.parent else f.parent? i := by
  unfold parent?
  rw [node?_add]
  split <;> rfl

theorem children_add (f : Forest) (n : Node) (i : NodeId) :
    (f.add n).1.children i = if i = f.size then n.children else f.children i := by
  unfold children
  rw [node?_add]
  split <;> rfl

theorem holds_add (f : Forest) (n : Node) (i : NodeId) :
    (f.add n).1.holds i = if i = f.size then some (n.toFields, n.ofClass) else f.holds i := by
  unfold holds
  rw [node?_add]
  split <;> rfl

end Forest
end SvgTree
