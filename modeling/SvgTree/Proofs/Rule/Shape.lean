/-
What plugin runs do to the shape of the forest.

Four of the plugins edit names and attributes and leave the shape as it is; the other two
cut nodes out, one after the other.  So a run keeps whatever such edits keep, and cuts.

The renaming of elements edits while it walks.  Names have no part in a walk, so it comes to
the nodes of the walk made before the first of them was renamed.
-/
import SvgTree.Proofs.Tree.Splicing
import SvgTree.Rule.Run

namespace SvgTree
namespace Forest

/-- Two forests with the same parents and the same children everywhere. -/
structure SameShape (f g : Forest) : Prop where
  size_eq : g.size = f.size
  parent_eq : ∀ i, g.parent? i = f.parent? i
  children_eq : ∀ i, g.children i = f.children i

theorem SameShape.refl (f : Forest) : SameShape f f := ⟨rfl, fun _ => rfl, fun _ => rfl⟩

theorem SameShape.trans {f g h : Forest} (a : SameShape f g) (b : SameShape g h) :
    SameShape f h :=
  ⟨b.size_eq.trans a.size_eq, fun i => (b.parent_eq i).trans (a.parent_eq i),
    fun i => (b.children_eq i).trans (a.children_eq i)⟩

theorem SameShape.wellFormed {f g : Forest} (s : SameShape f g) (wf : f.WellFormed) :
    g.WellFormed :=
  wf.congr s.size_eq s.parent_eq s.children_eq

theorem sameShape_setName (f : Forest) (i : NodeId) (name : Value) :
    SameShape f (f.setName i name) :=
  ⟨size_modify .., fun _ => parent?_modify fun _ => rfl, fun _ => children_modify fun _ => rfl⟩

theorem sameShape_setAttributes (f : Forest) (i : NodeId) (m : Attributes) :
    SameShape f (f.setAttributes i m) :=
  ⟨size_modify .., fun _ => parent?_modify fun _ => rfl, fun _ => children_modify fun _ => rfl⟩

/-! ### Renaming while walking -/

theorem walkFrom_seen (f : Forest) (fuel : Nat) (stack seen : List NodeId) :
    f.walkFrom fuel stack seen = seen.reverse ++ f.walkFrom fuel stack [] := by
  induction fuel generalizing stack seen with
  | zero => simp [walkFrom]
  | succ fuel ih =>
    cases stack with
    | nil => simp [walkFrom]
    | cons i stack =>
      rw [walkFrom, walkFrom, ih _ (i :: seen), ih _ [i]]
      simp

theorem walkFrom_congr {f g : Forest} (h : ∀ i, g.children i = f.children i) (fuel : Nat)
    (stack seen : List NodeId) : g.walkFrom fuel stack seen = f.walkFrom fuel stack seen := by
  induction fuel generalizing stack seen with
  | zero => rfl
  | succ fuel ih =>
    cases stack with
    | nil => rfl
    | cons i stack => rw [walkFrom, walkFrom, h, ih]

/-- Hands the nodes of a list to a visitor, up to the first at which it fails. -/
def visitEach {α : Type} (visit : NodeId → Visit α → Visit α × Option Fault) :
    List NodeId → Visit α → Visit α × Option Fault
  | [], v => (v, none)
  | i :: rest, v =>
    match visit i v with
    | (w, some e) => (w, some e)
    | (w, none) => visitEach visit rest w

/-- A visitor that leaves all lists of children is handed the nodes of the walk made at the
start. -/
theorem traverse_eq_visitEach {α : Type} {visit : NodeId → Visit α → Visit α × Option Fault}
    (hvisit : ∀ i v j, (visit i v).1.forest.children j = v.forest.children j) (fuel : Nat)
    (stack : List NodeId) (v : Visit α) :
    traverse visit fuel stack v = visitEach visit (v.forest.walkFrom fuel stack []) v := by
  induction fuel generalizing stack v with
  | zero => rfl
  | succ fuel ih =>
    cases stack with
    | nil => rfl
    | cons i stack =>
      have hkept := hvisit i v
      rw [traverse, walkFrom, walkFrom_seen, List.reverse_singleton, List.singleton_append,
        visitEach]
      cases hw : visit i v with
      | mk w failed =>
        rw [hw] at hkept
        cases failed with
        | some e => rfl
        | none =>
          show traverse visit fuel (w.forest.children i ++ stack) w = _
          rw [ih, hkept, walkFrom_congr hkept]

def renameAll (f : Forest) (mapping : Value) : List NodeId → Nat → Forest × Except Fault Nat
  | [], count => (f, .ok count)
  | i :: rest, count =>
    let n := f.node i
    if !n.kind.isHashable then (f, .error (.unhashable n.kind))
    else if n.isElement then
      match newName? mapping n.name with
      | .error e => (f, .error e)
      | .ok none => f.renameAll mapping rest count
      | .ok (some name) => (f.setName i name).renameAll mapping rest (count + 1)
    else f.renameAll mapping rest count

theorem visitEach_renameVisit (mapping : Value) (l : List NodeId) (f : Forest) (count : Nat) :
    f.renameAll mapping l count =
      match visitEach (renameVisit mapping) l ⟨f, count⟩ with
      | (v, some e) => (v.forest, .error e)
      | (v, none) => (v.forest, .ok v.state) := by
  induction l generalizing f count with
  | nil => rfl
  | cons i rest ih =>
    simp only [renameAll, visitEach, renameVisit]
    split
    · rfl
    · split
      · cases newName? mapping (f.node i).name with
        | error e => rfl
        | ok found =>
          cases found with
          | none => exact ih f count
          | some name => exact ih _ _
      · exact ih f count

theorem children_renameVisit (mapping : Value) (i : NodeId) (v : Visit Nat) (j : NodeId) :
    (renameVisit mapping i v).1.forest.children j = v.forest.children j := by
  unfold renameVisit
  dsimp only
  split
  · rfl
  · split
    · split
      · rfl
      · rfl
      · exact children_modify fun _ => rfl
    · rfl

theorem renameElements_eq (f : Forest) (root : NodeId) (step : Step) :
    f.renameElements root step =
      let run := f.renameAll (step.mapping.orElse (.dict [])) (f.walk root) 0
      (run.1, run.2.map fun count : Nat => { plugin := step.plugin.name, changed := count }) := by
  rw [renameElements, traverse_eq_visitEach (children_renameVisit _), visitEach_renameVisit, walk]
  cases visitEach (renameVisit (step.mapping.orElse (.dict []))) (f.walkFrom f.size [root] [])
    ⟨f, 0⟩ with
  | mk v failed => cases failed <;> rfl

/-! ### Edits that keep the shape -/

theorem sameShape_renameAll (mapping : Value) (l : List NodeId) (f : Forest) (count : Nat) :
    SameShape f (f.renameAll mapping l count).1 := by
  induction l generalizing f count with
  | nil => exact .refl f
  | cons i rest ih =>
    simp only [renameAll]
    split
    · exact .refl f
    · split
      · split
        · exact .refl f
        · exact ih f count
        · exact (sameShape_setName f i _).trans (ih _ _)
      · exact ih f count

theorem sameShape_eraseNames (i : NodeId) (names : List Value) (f : Forest) (count : Nat) :
    SameShape f (f.eraseNames i names count).1 := by
  induction names generalizing f count with
  | nil => exact .refl f
  | cons name rest ih =>
    simp only [eraseNames]
    split
    · exact .refl f
    · exact ih f count
    · split
      · exact .refl f
      · exact (sameShape_setAttributes f i _).trans (ih _ _)

theorem sameShape_eraseEach (names : Value) (l : List NodeId) (f : Forest) (count : Nat) :
    SameShape f (f.eraseEach names l count).1 := by
  induction l generalizing f count with
  | nil => exact .refl f
  | cons i rest ih =>
    simp only [eraseEach]
    split
    · exact .refl f
    · rename_i listed _
      have step := sameShape_eraseNames i listed f count
      split
      · rename_i g e h
        rw [h] at step
        exact step
      · rename_i g n h
        rw [h] at step
        exact step.trans (ih g n)

theorem sameShape_setEntries (i : NodeId) (entries : List (Value × Value)) (f : Forest)
    (count : Nat) : SameShape f (f.setEntries i entries count).1 := by
  induction entries generalizing f count with
  | nil => exact .refl f
  | cons entry rest ih =>
    simp only [setEntries]
    split
    · exact .refl f
    · exact ih f count
    · split
      · exact .refl f
      · exact (sameShape_setAttributes f i _).trans (ih _ _)

theorem sameShape_setEach (entries : List (Value × Value)) (l : List NodeId) (f : Forest)
    (count : Nat) : SameShape f (f.setEach entries l count).1 := by
  induction l generalizing f count with
  | nil => exact .refl f
  | cons i rest ih =>
    simp only [setEach]
    have step := sameShape_setEntries i entries f count
    split
    · rename_i g e h
      rw [h] at step
      exact step
    · rename_i g n h
      rw [h] at step
      exact step.trans (ih g n)

theorem sameShape_fillEach (color : Value) (l : List NodeId) (f : Forest) (count : Nat) :
    SameShape f (f.fillEach color l count).1 := by
  induction l generalizing f count with
  | nil => exact .refl f
  | cons i rest ih =>
    simp only [fillEach]
    split
    · exact ih f count
    · split
      · exact .refl f
      · exact (sameShape_setAttributes f i _).trans (ih _ _)

/-- A property that edits of names and attributes keep, and detachments. -/
structure KeptByPlugins (P : Forest → Prop) : Prop where
  shape : ∀ {f g : Forest}, SameShape f g → P f → P g
  detach : ∀ {f g : Forest} {i : NodeId}, P f → f.detach i = .ok g → P g

theorem runStep_fst (f : Forest) (root : NodeId) (step : Step) :
    (f.runStep root step).1 = (f.perform root step).1 := by
  unfold runStep
  split
  · rename_i g e h
    split <;> rw [h]
  · rfl

namespace KeptByPlugins

variable {P : Forest → Prop} {f : Forest}

theorem detachAll (k : KeptByPlugins P) (hP : P f) (root : NodeId) (l : List NodeId) (count : Nat)
    (cuts : List Cut) : P (f.detachAll root l count cuts).1 := by
  induction l generalizing f count cuts with
  | nil => exact hP
  | cons i rest ih =>
    simp only [Forest.detachAll]
    split
    · split
      · exact hP
      · rename_i g h
        exact ih (k.detach hP h) _ _
    · exact ih hP _ _

/-- Running one plugin keeps the property, whatever comes of it. -/
theorem perform (k : KeptByPlugins P) (hP : P f) (root : NodeId) (step : Step) :
    P (f.perform root step).1 := by
  unfold Forest.perform
  cases step.plugin with
  | removeRasterImages =>
    simp only [removeRasterImages]
    split
    · exact hP
    · exact k.detachAll hP root _ 0 []
  | removeElements =>
    simp only [removeElements]
    split
    · exact hP
    · exact hP
    · exact k.detachAll hP root _ 0 []
  | renameElements =>
    simp only [renameElements_eq]
    exact k.shape (sameShape_renameAll _ _ f 0) hP
  | removeAttributes =>
    simp only [removeAttributes]
    split
    · exact hP
    · exact k.shape (sameShape_eraseEach _ _ f 0) hP
  | setAttributes =>
    simp only [setAttributesOf]
    split
    · exact hP
    · exact hP
    · exact k.shape (sameShape_setEach _ _ f 0) hP
  | defaultFill =>
    simp only [defaultFill]
    split
    · exact hP
    · exact k.shape (sameShape_fillEach _ _ f 0) hP

theorem runStep (k : KeptByPlugins P) (hP : P f) (root : NodeId) (step : Step) :
    P (f.runStep root step).1 := by
  rw [runStep_fst]
  exact k.perform hP root step

theorem runSteps (k : KeptByPlugins P) (hP : P f) (root : NodeId)
    (requested : Option (List String)) (rule : List Step) (report : Report) :
    P (f.runSteps root requested rule report).1 := by
  induction rule generalizing f report with
  | nil => exact hP
  | cons step rest ih =>
    simp only [Forest.runSteps]
    have hstep := k.runStep hP root step
    split
    · split
      · rename_i g e h
        rw [h] at hstep
        exact hstep
      · rename_i g result h
        rw [h] at hstep
        split
        · exact hstep
        · exact ih hstep _
    · exact ih hP _

end KeptByPlugins

end Forest
end SvgTree
