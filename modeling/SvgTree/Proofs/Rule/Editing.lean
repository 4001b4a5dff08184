/-
Where plugins that edit names and attributes edit.

Each of these plugins works through a list of nodes and edits one after the other.  So
whatever comes of it, nodes that are not on the list are as they were.
-/
import SvgTree.Proofs.Rule.FailedStep

namespace SvgTree
namespace Forest

variable {f g h : Forest} {i j : NodeId} {l k : List NodeId}

/-- Nodes that are not on the list are as they were. -/
def Within (l : List NodeId) (f g : Forest) : Prop := ∀ j, j ∉ l → g.node? j = f.node? j

namespace Within

theorem refl (l : List NodeId) (f : Forest) : Within l f f := fun _ _ => rfl

theorem trans (a : Within l f g) (b : Within l g h) : Within l f h := fun j hj =>
  (b j hj).trans (a j hj)

theorem mono (hsub : l ⊆ k) (a : Within l f g) : Within k f g := fun j hj =>
  a j fun hjl => hj (hsub hjl)

theorem cons (a : Within [i] f g) (b : Within l g h) : Within (i :: l) f h :=
  (a.mono (List.cons_subset_cons i (List.nil_subset l))).trans
    (b.mono (List.subset_cons_self i l))

theorem node_eq (a : Within l f g) (hj : j ∉ l) : g.node j = f.node j := by
  rw [node, node, a j hj]

end Within

theorem within_modify (f : Forest) (i : NodeId) (edit : Node → Node) :
    Within [i] f (f.modify i edit) := fun j hj => by
  rw [node?_modify, if_neg fun hij => hj (List.mem_singleton.mpr hij.symm)]

theorem within_setName (f : Forest) (i : NodeId) (name : Value) :
    Within [i] f (f.setName i name) := within_modify f i _

theorem within_setAttributes (f : Forest) (i : NodeId) (m : Attributes) :
    Within [i] f (f.setAttributes i m) := within_modify f i _

/-! ### Removing names -/

theorem within_eraseNames (i : NodeId) (names : List Value) (f : Forest) (count : Nat) :
    Within [i] f (f.eraseNames i names count).1 := by
  induction names generalizing f count with
  | nil => exact .refl _ f
  | cons name rest ih =>
    simp only [eraseNames]
    split
    · exact .refl _ f
    · exact ih f count
    · split
      · exact .refl _ f
      · exact (within_setAttributes f i _).trans (ih _ _)

theorem within_eraseEach (names : Value) (l : List NodeId) (f : Forest) (count : Nat) :
    Within l f (f.eraseEach names l count).1 := by
  induction l generalizing f count with
  | nil => exact .refl _ f
  | cons i rest ih =>
    simp only [eraseEach]
    split
    · exact .refl _ f
    · rename_i listed _
      have step := within_eraseNames i listed f count
      split
      · rename_i g e h
        rw [h] at step
        exact step.cons (.refl _ g)
      · rename_i g n h
        rw [h] at step
        exact step.cons (ih g n)

/-! ### Setting entries -/

theorem within_setEntries (i : NodeId) (entries : List (Value × Value)) (f : Forest)
    (count : Nat) : Within [i] f (f.setEntries i entries count).1 := by
  induction entries generalizing f count with
  | nil => exact .refl _ f
  | cons entry rest ih =>
    simp only [setEntries]
    split
    · exact .refl _ f
    · exact ih f count
    · split
      · exact .refl _ f
      · exact (within_setAttributes f i _).trans (ih _ _)

theorem within_setEach (entries : List (Value × Value)) (l : List NodeId) (f : Forest)
    (count : Nat) : Within l f (f.setEach entries l count).1 := by
  induction l generalizing f count with
  | nil => exact .refl _ f
  | cons i rest ih =>
    simp only [setEach]
    have step := within_setEntries i entries f count
    split
    · rename_i g e h
      rw [h] at step
      exact step.cons (.refl _ g)
    · rename_i g n h
      rw [h] at step
      exact step.cons (ih g n)

end Forest
end SvgTree
