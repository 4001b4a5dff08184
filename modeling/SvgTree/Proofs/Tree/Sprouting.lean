/-
Building where nothing is taken.

A blueprint that names no existing node makes new nodes only.  They all have the class of the
node that they are put under, and the nodes that were there before keep what they hold and the
parent that they have.
-/
import SvgTree.Proofs.Tree.Attach

namespace SvgTree

open Blueprint (namedAll)

namespace Forest

/-- `g` is `f` with new nodes of one class.  The old nodes keep what they hold and their
parents. -/
structure Sprouts (ofClass : NodeClass) (f g : Forest) : Prop where
  size_le : f.size ≤ g.size
  holds_eq : ∀ {i : NodeId}, i < f.size → g.holds i = f.holds i
  parent_eq : ∀ {i : NodeId}, i < f.size → g.parent? i = f.parent? i
  class_eq : ∀ {i : NodeId}, f.size ≤ i → i < g.size → (g.node i).ofClass = ofClass

/-- A node of that class that waits for items which name no existing node. -/
structure WaitsForNew (ofClass : NodeClass) (f : Forest) (p : Pending) : Prop where
  host_lt : p.host < f.size
  class_eq : (f.node p.host).ofClass = ofClass
  new : namedAll p.items = []

variable {ofClass : NodeClass} {f g h : Forest} {host : NodeId}

namespace Sprouts

theorem refl (ofClass : NodeClass) (f : Forest) : Sprouts ofClass f f where
  size_le := Nat.le_refl _
  holds_eq _ := rfl
  parent_eq _ := rfl
  class_eq hle hlt := absurd hlt (Nat.not_lt.mpr hle)

theorem old_class (s : Sprouts ofClass f g) {i : NodeId} (hi : i < f.size) :
    (g.node i).ofClass = (f.node i).ofClass :=
  ofClass_node_congr (s.holds_eq hi)

theorem trans (s : Sprouts ofClass f g) (t : Sprouts ofClass g h) : Sprouts ofClass f h where
  size_le := Nat.le_trans s.size_le t.size_le
  holds_eq hi := (t.holds_eq (Nat.lt_of_lt_of_le hi s.size_le)).trans (s.holds_eq hi)
  parent_eq hi := (t.parent_eq (Nat.lt_of_lt_of_le hi s.size_le)).trans (s.parent_eq hi)
  class_eq {i} hle hlt := by
    rcases Nat.lt_or_ge i g.size with hi | hi
    · rw [t.old_class hi, s.class_eq hle hi]
    · exact t.class_eq hi hlt

theorem add (f : Forest) (fields : Fields) (ofClass : NodeClass) (parent : Option NodeId) :
    Sprouts ofClass f (f.add ⟨fields, ofClass, parent, []⟩).1 where
  size_le := Nat.le_of_lt (lt_size_add ..)
  holds_eq hi := by rw [holds_add, if_neg (Nat.ne_of_lt hi)]
  parent_eq hi := by rw [parent?_add, if_neg (Nat.ne_of_lt hi)]
  class_eq {i} hle hlt := by
    rw [size_add] at hlt
    have hi : i = f.size := Nat.le_antisymm (Nat.le_of_lt_succ hlt) hle
    rw [node, node?_add, if_pos hi]
    rfl

theorem addUnder (hhost : host < f.size) (hclass : (f.node host).ofClass = ofClass)
    (fields : Fields) : Sprouts ofClass f (f.addUnder host fields).1 := by
  rw [addUnder_eq hhost, hclass]
  have s := Sprouts.add f fields ofClass (some host)
  refine ⟨?_, fun hi => ?_, fun hi => ?_, fun hle hlt => ?_⟩
  · rw [size_setChildren]
    exact s.size_le
  · rw [holds_setChildren, s.holds_eq hi]
  · rw [parent?_setChildren, s.parent_eq hi]
  · rw [size_setChildren] at hlt
    rw [ofClass_node_congr (holds_setChildren ..), s.class_eq hle hlt]

end Sprouts

theorem WaitsForNew.mono {p : Pending} (w : WaitsForNew ofClass f p) (s : Sprouts ofClass f g) :
    WaitsForNew ofClass g p where
  host_lt := Nat.lt_of_lt_of_le w.host_lt s.size_le
  class_eq := (s.old_class w.host_lt).trans w.class_eq
  new := w.new

theorem attachItems_sprouts {items : List Blueprint} {waiting : List Pending}
    (hhost : host < f.size) (hclass : (f.node host).ofClass = ofClass)
    (hnew : namedAll items = []) (hw : ∀ p ∈ waiting, WaitsForNew ofClass f p) :
    Sprouts ofClass f (f.attachItems host items waiting).1 ∧
      ∀ left, (f.attachItems host items waiting).2 = .ok left →
        ∀ p ∈ left, WaitsForNew ofClass (f.attachItems host items waiting).1 p := by
  induction items generalizing f waiting with
  | nil =>
    refine ⟨.refl _ _, fun left hleft => ?_⟩
    cases hleft
    exact hw
  | cons b rest ih =>
    rw [namedAll, List.append_eq_nil_iff] at hnew
    cases b with
    | existing i => cases hnew.1
    | broken e => exact ⟨.refl _ _, fun left hleft => by cases hleft⟩
    | fresh fields inner =>
      have s := Sprouts.addUnder hhost hclass fields
      have hself : WaitsForNew ofClass (f.addUnder host fields).1
          ⟨(f.addUnder host fields).2, inner⟩ := by
        have hlt := lt_size_addUnder hhost fields
        rw [addUnder_snd hhost]
        exact ⟨hlt, s.class_eq (Nat.le_refl _) hlt, hnew.1⟩
      have hall : ∀ p ∈ (⟨(f.addUnder host fields).2, inner⟩ : Pending) :: waiting,
          WaitsForNew ofClass (f.addUnder host fields).1 p := by
        intro p hp
        rcases List.mem_cons.mp hp with rfl | hp
        · exact hself
        · exact (hw p hp).mono s
      obtain ⟨t, hleft⟩ := ih (Nat.lt_of_lt_of_le hhost s.size_le)
        ((s.old_class hhost).trans hclass) hnew.2 hall
      exact ⟨s.trans t, hleft⟩

theorem attach_sprouts {waiting : List Pending}
    (hw : ∀ p ∈ waiting, WaitsForNew ofClass f p) : Sprouts ofClass f (f.attach waiting).1 := by
  induction f, waiting using attach.induct with
  | case1 f =>
    rw [attach]
    exact .refl _ _
  | case2 f p rest g e hrun =>
    have hp := hw p List.mem_cons_self
    have step := attachItems_sprouts hp.host_lt hp.class_eq hp.new
      fun p hp => hw p (List.mem_cons_of_mem _ hp)
    rw [hrun] at step
    rw [attach, hrun]
    exact step.1
  | case3 f p rest g left hrun ih =>
    have hp := hw p List.mem_cons_self
    have step := attachItems_sprouts hp.host_lt hp.class_eq hp.new
      fun p hp => hw p (List.mem_cons_of_mem _ hp)
    rw [hrun] at step
    rw [attach, hrun]
    exact step.1.trans (ih (step.2 left rfl))

/-- A construction that takes no node is of one class throughout, also where it ends in a
fault, and its first node has the parent that was given. -/
theorem construct_sprouts (f : Forest) (ofClass : NodeClass) (parent : Option NodeId)
    (fields : Fields) {items : List Blueprint} (hnew : namedAll items = []) :
    Sprouts ofClass f (f.construct ofClass parent fields items).1 ∧
      (f.construct ofClass parent fields items).1.parent? f.size = parent := by
  have s := Sprouts.add f fields ofClass parent
  have hself := f.lt_size_add ⟨fields, ofClass, parent, []⟩
  have hw : ∀ p ∈ [(⟨f.size, items⟩ : Pending)],
      WaitsForNew ofClass (f.add ⟨fields, ofClass, parent, []⟩).1 p := by
    intro p hp
    rw [List.mem_singleton.mp hp]
    exact ⟨hself, s.class_eq (Nat.le_refl _) hself, hnew⟩
  have t := attach_sprouts hw
  rw [construct_eq]
  refine ⟨s.trans t, ?_⟩
  show ((f.add ⟨fields, ofClass, parent, []⟩).1.attach _).1.parent? f.size = parent
  rw [t.parent_eq hself, parent?_add, if_pos rfl]

end Forest
end SvgTree
