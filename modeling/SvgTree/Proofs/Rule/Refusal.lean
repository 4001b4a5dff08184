/-
Which plugins can be refused.

A step that was read holds text, and text makes a valid attribute unless a name is blank.
Only the plugin that sets attributes takes their names from the step, so a refusal can come
from no other.  What else can go wrong, a kind that cannot be looked up or a node of the
plain class, is no refusal.
-/
import SvgTree.Proofs.Attribute.Insert
import SvgTree.Proofs.Rule.Reading
import SvgTree.Proofs.Rule.Trimmed

namespace SvgTree

def NeverRefuses {α : Type} (x : Except Fault α) : Prop :=
  ∀ e, x = .error e → e.isRefusal = false

namespace NeverRefuses

variable {α β : Type}

theorem ok (a : α) : NeverRefuses (.ok a : Except Fault α) := fun _ h => by cases h

theorem error {e : Fault} (h : e.isRefusal = false) :
    NeverRefuses (.error e : Except Fault α) := fun e' he => by
  cases he
  exact h

theorem map {x : Except Fault α} (h : NeverRefuses x) (g : α → β) : NeverRefuses (x.map g) := by
  cases x with
  | ok a => exact .ok (g a)
  | error e => exact .error (h e rfl)

theorem bind_pure {x : Except Fault α} (h : NeverRefuses x) (g : α → β) :
    NeverRefuses (x >>= fun a => pure (g a)) := h.map g

theorem of_eq {x : Except Fault α} {e : Fault} (h : NeverRefuses x) (hx : x = .error e) :
    NeverRefuses (.error e : Except Fault β) := .error (h e hx)

end NeverRefuses

namespace Attributes

theorem hasValue_neverRefuses (m : Attributes) (name value : Value) :
    NeverRefuses (m.hasValue name value) := by
  cases name with
  | text n =>
    simp only [hasValue, getValue?]
    cases m.get? n with
    | none => exact .ok _
    | some a => cases value <;> exact .ok _
  | list l => exact .error rfl
  | dict entries => exact .error rfl
  | _ => exact .ok _

end Attributes

namespace Forest

variable {f : Forest}

/-! ### Queries -/

theorem matching_neverRefuses (f : Forest) (s : Selector) (l : List NodeId) :
    NeverRefuses (f.matching s l) := by
  induction l with
  | nil => exact .ok []
  | cons i rest ih =>
    rw [matching]
    cases ht : s.test (f.node i).toFields with
    | error e =>
      unfold Selector.test at ht
      split at ht
      · cases ht
        exact .error rfl
      · cases ht
    | ok found =>
      cases hr : f.matching s rest with
      | error e => exact ih.of_eq hr
      | ok others => exact .ok _

theorem select_neverRefuses (f : Forest) (root : NodeId) (selector : Value) :
    NeverRefuses (f.select root selector) := by
  unfold select
  split
  · exact matching_neverRefuses f _ _
  · exact .error rfl

theorem elements_neverRefuses (f : Forest) (l : List NodeId) : NeverRefuses (f.elements l) := by
  induction l with
  | nil => exact .ok []
  | cons i rest ih =>
    simp only [elements]
    split
    · exact ih.map _
    · exact .error rfl

/-! ### Edits -/

theorem detachAll_neverRefuses (root : NodeId) (l : List NodeId) (f : Forest) (count : Nat)
    (cuts : List Cut) : NeverRefuses (f.detachAll root l count cuts).2 := by
  induction l generalizing f count cuts with
  | nil => exact .ok _
  | cons i rest ih =>
    rw [detachAll]
    split
    · cases hd : f.detach i with
      | error e =>
        unfold detach at hd
        split at hd
        · cases hd
        · cases hd
          exact .error rfl
      | ok g => exact ih g _ _
    · exact ih f _ _

theorem itemAt_neverRefuses (items : List Value) (place : Value) :
    NeverRefuses (itemAt items place) := by
  unfold itemAt
  split
  · rename_i n _
    by_cases hneg : (if n < 0 then n + items.length else n) < 0
    · simp only [if_pos hneg]
      exact .error rfl
    · simp only [if_neg hneg]
      cases items[(if n < 0 then n + items.length else n).toNat]? with
      | none => exact .error rfl
      | some v => exact .ok v
  · exact .error rfl

theorem newName?_neverRefuses (mapping name : Value) : NeverRefuses (newName? mapping name) := by
  unfold newName?
  split
  · split
    · exact .ok _
    · exact .error rfl
  · split
    · exact (itemAt_neverRefuses _ _).map _
    · exact .ok _
  · split
    · split
      · exact .error rfl
      · exact .ok _
    · exact .error rfl
  · exact .error rfl

theorem renameAll_neverRefuses (mapping : Value) (l : List NodeId) (f : Forest) (count : Nat) :
    NeverRefuses (f.renameAll mapping l count).2 := by
  induction l generalizing f count with
  | nil => exact .ok _
  | cons i rest ih =>
    simp only [renameAll]
    split
    · exact .error rfl
    · split
      · cases hn : newName? mapping (f.node i).name with
        | error e => exact (newName?_neverRefuses _ _).of_eq hn
        | ok new =>
          cases new with
          | none => exact ih f _
          | some name => exact ih _ _
      · exact ih f _

theorem eraseNames_neverRefuses (i : NodeId) (names : List Value) (f : Forest) (count : Nat) :
    NeverRefuses (f.eraseNames i names count).2 := by
  induction names generalizing f count with
  | nil => exact .ok _
  | cons name rest ih =>
    simp only [eraseNames]
    cases hh : (f.node i).attributes.hasValue name .null with
    | error e => exact (Attributes.hasValue_neverRefuses _ _ _).of_eq hh
    | ok there =>
      cases there with
      | false => exact ih f _
      | true =>
        cases he : (f.node i).attributes.eraseValue name with
        | ok m => exact ih _ _
        | error e =>
          unfold Attributes.eraseValue at he
          split at he
          · cases he
          · split at he
            · cases he
            · cases he
              exact .error rfl

theorem eraseEach_neverRefuses (names : Value) (l : List NodeId) (f : Forest) (count : Nat) :
    NeverRefuses (f.eraseEach names l count).2 := by
  induction l generalizing f count with
  | nil => exact .ok _
  | cons i rest ih =>
    rw [eraseEach]
    cases hl : listedNames names with
    | error e =>
      unfold listedNames at hl
      split at hl
      · cases hl
      · cases hl
      · cases hl
      · split at hl
        · cases hl
          exact .error rfl
        · cases hl
    | ok listed =>
      simp only
      have step := eraseNames_neverRefuses i listed f count
      cases hs : f.eraseNames i listed count with
      | mk g done =>
        rw [hs] at step
        cases done with
        | error e => exact step.of_eq rfl
        | ok n => exact ih g n

theorem Ends.neverRefuses {α : Type} {done : Forest × Except Fault α} (e : f.Ends done) :
    NeverRefuses done.2 := by
  obtain ⟨g, a, rfl, -⟩ := e
  exact .ok a

theorem fillEach_ends (color : String) (l : List NodeId) (f : Forest) (count : Nat) :
    Ends f (f.fillEach (.text color) l count) := by
  induction l generalizing f count with
  | nil => exact .ok f _
  | cons i rest ih =>
    have hset := (f.node i).attributes.set_visible ⟨"fill", color, by decide⟩
    simp only [fillEach, hset]
    split
    · exact ih f count
    · exact .after (trimmed_setAttributes f i _) (ih _ _)

/-! ### Plugins -/

theorem perform_neverRefuses (f : Forest) (root : NodeId) {step : Step} (hs : step.Sound)
    (hp : step.plugin ≠ .setAttributes) : NeverRefuses (f.perform root step).2 := by
  unfold perform
  cases hplugin : step.plugin with
  | removeRasterImages =>
    simp only [removeRasterImages]
    cases hsel : f.select root (.text "image") with
    | error e => exact (select_neverRefuses f root _).of_eq hsel
    | ok images => exact (detachAll_neverRefuses root _ f 0 []).map _
  | removeElements =>
    simp only [removeElements]
    cases hsel : f.select root step.selector with
    | error e => exact (select_neverRefuses f root _).of_eq hsel
    | ok found =>
      cases found with
      | nil => exact .ok _
      | cons i rest => exact (detachAll_neverRefuses root _ f 0 []).map _
  | renameElements =>
    simp only [renameElements_eq]
    exact (renameAll_neverRefuses _ _ f 0).map _
  | removeAttributes =>
    have targets : NeverRefuses (if step.selector.isTruthy then f.select root step.selector
        else f.elements (f.walk root)) := by
      split
      · exact select_neverRefuses f root _
      · exact elements_neverRefuses f _
    simp only [removeAttributes]
    cases htargets : (if step.selector.isTruthy then f.select root step.selector
        else f.elements (f.walk root)) with
    | error e => exact targets.of_eq htargets
    | ok found => exact ((eraseEach_neverRefuses _ found f 0).bind_pure _).map _
  | setAttributes => exact absurd hplugin hp
  | defaultFill =>
    obtain ⟨color, hcolor⟩ := hs.color
    simp only [defaultFill]
    cases hsel : f.select root (.text shapes) with
    | error e => exact (select_neverRefuses f root _).of_eq hsel
    | ok found =>
      simp only [hcolor]
      exact ((fillEach_ends color found f 0).neverRefuses.bind_pure _).map _

theorem signed_of_perform {root : NodeId} {step : Step} {g : Forest} {result : StepResult}
    (h : f.perform root step = (g, .ok result)) :
    result.plugin = step.plugin.name ∧ result.errors = [] := by
  -- Each plugin makes its result from a count, and its errors are the empty list that every
  -- result starts with.
  have made {α : Type} {done : Except Fault α} {result : StepResult} {r : α → StepResult}
      {name : String} (hr : ∀ a, (r a).plugin = name ∧ (r a).errors = [])
      (h : done.map r = .ok result) : result.plugin = name ∧ result.errors = [] := by
    cases done with
    | error e => cases h
    | ok a =>
      cases h
      exact hr a
  have hresult := congrArg Prod.snd h
  unfold perform at hresult
  cases hplugin : step.plugin with
  | removeRasterImages =>
    simp only [hplugin, removeRasterImages] at hresult
    split at hresult
    · cases hresult
    · exact made (fun _ => ⟨rfl, rfl⟩) hresult
  | removeElements =>
    simp only [hplugin, removeElements] at hresult
    split at hresult
    · cases hresult
    · cases hresult
      exact ⟨congrArg Plugin.name hplugin, rfl⟩
    · exact made (fun _ => ⟨rfl, rfl⟩) hresult
  | renameElements =>
    simp only [hplugin, renameElements_eq] at hresult
    exact made (fun _ => ⟨rfl, rfl⟩) hresult
  | removeAttributes =>
    simp only [hplugin, removeAttributes] at hresult
    split at hresult
    · cases hresult
    · exact made (fun _ => ⟨rfl, rfl⟩) hresult
  | setAttributes =>
    simp only [hplugin, setAttributesOf] at hresult
    split at hresult
    · cases hresult
    · cases hresult
      exact ⟨congrArg Plugin.name hplugin, rfl⟩
    · exact made (fun _ => ⟨rfl, rfl⟩) hresult
  | defaultFill =>
    simp only [hplugin, defaultFill] at hresult
    split at hresult
    · cases hresult
    · exact made (fun _ => ⟨rfl, rfl⟩) hresult

theorem errors_of_perform {root : NodeId} {step : Step} {g : Forest} {result : StepResult}
    (h : f.perform root step = (g, .ok result)) : result.errors = [] := (signed_of_perform h).2

end Forest
end SvgTree
