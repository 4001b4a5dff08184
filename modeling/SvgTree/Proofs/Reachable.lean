/-
Every forest that calls can lead to, and its single-holder rule.

A `Call` is one operation of the library with everything it is given: a construction, the
wrapping of a raw tree, a splice, a detachment, an edit of a name or of attributes, the run
of a plugin or of a rule.  A call may fail, and what it left behind counts too; a building
that was cut short at any item is such a call.  By induction over the calls every reachable
forest is well formed.
-/
import SvgTree.Proofs.Kept

namespace SvgTree

open Blueprint (named namedAll)

inductive Call where
  | create (ofClass : NodeClass) (parent : Option NodeId)
    (kind name value attributes items : Value)
  | wrapUnder (ofClass : NodeClass) (parent : Option NodeId) (raw : Value)
  | wrap (raw : Value)
  | splice (host : NodeId) (start count insertions : Value)
  | detach (i : NodeId)
  | rename (i : NodeId) (name : Value)
  | setAttribute (i : NodeId) (name value : Value)
  | putAttribute (i : NodeId) (record : Value)
  | eraseAttribute (i : NodeId) (name : Value)
  | runPlugin (root : NodeId) (step : Step)
  | runRule (root : NodeId) (rule : List Step) (requested : Option (List String))

namespace Forest

def editAttributes (f : Forest) (i : NodeId) (edit : Attributes → Except Fault Attributes) :
    Forest :=
  match edit (f.node i).attributes with
  | .ok m => f.setAttributes i m
  | .error _ => f

/-- The forest that a call leaves behind, also where it fails. -/
def after (f : Forest) : Call → Forest
  | .create ofClass parent kind name value attributes items =>
    (f.create ofClass parent kind name value attributes items).1
  | .wrapUnder ofClass parent raw => (f.ofRawUnder ofClass parent raw).1
  | .wrap raw => (f.wrap raw).1
  | .splice host start count insertions => (f.splice host start count insertions).1
  | .detach i =>
    match f.detach i with
    | .ok g => g
    | .error _ => f
  | .rename i name => f.setName i name
  | .setAttribute i name value => f.editAttributes i fun m => m.set name value
  | .putAttribute i record => f.editAttributes i fun m => m.putRecord record
  | .eraseAttribute i name => f.editAttributes i fun m => m.eraseValue name
  | .runPlugin root step => (f.runStep root step).1
  | .runRule root rule requested => (f.runRule root rule requested).1

/-- The nodes that a call names to put something under them or to take them are there. -/
def Admits (f : Forest) : Call → Prop
  | .create _ parent _ _ _ _ items =>
    (∀ p ∈ parent, p < f.size) ∧ ∀ i ∈ namedAll (Blueprint.ofSequence items), i < f.size
  | .wrapUnder _ parent raw =>
    (∀ p ∈ parent, p < f.size) ∧ ∀ i ∈ named (Blueprint.ofValue raw), i < f.size
  | .wrap raw => ∀ i ∈ named (Blueprint.ofValue raw), i < f.size
  | .splice host _ _ insertions => host < f.size ∧ f.NamesExisting host insertions
  | _ => True

instance (f : Forest) (c : Call) : Decidable (f.Admits c) := by
  cases c <;> unfold Admits <;> infer_instance

def afterAll (f : Forest) : List Call → Forest
  | [] => f
  | c :: rest => (f.after c).afterAll rest

def AdmitsAll (f : Forest) : List Call → Prop
  | [] => True
  | c :: rest => f.Admits c ∧ (f.after c).AdmitsAll rest

instance decidableAdmitsAll : (f : Forest) → (calls : List Call) → Decidable (f.AdmitsAll calls)
  | _, [] => isTrue trivial
  | f, c :: rest =>
    have := decidableAdmitsAll (f.after c) rest
    inferInstanceAs (Decidable (f.Admits c ∧ (f.after c).AdmitsAll rest))

/-- A forest that some sequence of calls leads to from nothing. -/
def Reachable (f : Forest) : Prop :=
  ∃ calls, Forest.empty.AdmitsAll calls ∧ Forest.empty.afterAll calls = f

variable {f : Forest}

theorem Kept.editAttributes {P : Forest → Prop} (k : Kept P) (hP : P f) (i : NodeId)
    (edit : Attributes → Except Fault Attributes) : P (f.editAttributes i edit) := by
  unfold Forest.editAttributes
  split
  · exact k.shape hP (sameShape_setAttributes f i _)
  · exact hP

def givenParent? : Call → Option NodeId
  | .create _ parent _ _ _ _ _ => parent
  | .wrapUnder _ parent _ => parent
  | _ => none

/-- Every call keeps the property if it starts well, where it makes a node with a given
parent. -/
theorem Kept.after {P : Forest → Prop} {f : Forest} (k : Kept P) (hP : P f) {c : Call}
    (h : f.Admits c)
    (hgiven : ∀ p, givenParent? c = some p → p < f.size → ∀ fields ofClass,
      P (f.add ⟨fields, ofClass, some p, []⟩).1) : P (f.after c) := by
  have hadd : ∀ fields ofClass, (∀ p ∈ givenParent? c, p < f.size) →
      P (f.add ⟨fields, ofClass, givenParent? c, []⟩).1 := by
    intro fields ofClass hlt
    cases hp : givenParent? c with
    | none => exact k.add fields ofClass hP
    | some p => exact hgiven p hp (hlt p hp) fields ofClass
  cases c with
  | create ofClass parent kind name value attributes items =>
    show P (f.create _ _ _ _ _ _ _).1
    unfold create
    split
    · exact hP
    · exact (k.construct (hadd _ _ h.1) h.2).1
  | wrapUnder ofClass parent raw =>
    show P (f.realize ofClass parent (.ofValue raw)).1
    cases hb : Blueprint.ofValue raw with
    | existing i => exact hP
    | broken e => exact hP
    | fresh fields items =>
      refine (k.construct (hadd _ _ h.1) fun i hi => h.2 i ?_).1
      rwa [hb, named]
  | wrap raw =>
    show P (f.wrap raw).1
    unfold Forest.wrap
    split
    · exact hP
    · exact (k.realize hP _ h).1
    · exact hP
  | splice host start count insertions => exact k.splice hP h.1 start count h.2
  | detach i =>
    simp only [Forest.after]
    split
    · rename_i g hg
      exact k.detach hP hg
    · exact hP
  | rename i name => exact k.shape hP (sameShape_setName f i name)
  | setAttribute i name value => exact k.editAttributes hP i (·.set name value)
  | putAttribute i record => exact k.editAttributes hP i (·.putRecord record)
  | eraseAttribute i name => exact k.editAttributes hP i (·.eraseValue name)
  | runPlugin root step => exact k.keptByPlugins.runStep hP root step
  | runRule root rule requested => exact k.keptByPlugins.runSteps hP root requested rule {}

theorem wellFormed_after (wf : f.WellFormed) {c : Call} (h : f.Admits c) :
    (f.after c).WellFormed :=
  kept_wellFormed.after wf h fun _ _ hlt _ _ => wf.add rfl fun _ hp => Option.some.inj hp ▸ hlt

theorem wellFormed_afterAll {calls : List Call} (wf : f.WellFormed) (h : f.AdmitsAll calls) :
    (f.afterAll calls).WellFormed := by
  induction calls generalizing f with
  | nil => exact wf
  | cons c rest ih => exact ih (wellFormed_after wf h.1) h.2

theorem Reachable.wellFormed (h : f.Reachable) : f.WellFormed := by
  obtain ⟨calls, hadmits, rfl⟩ := h
  exact wellFormed_afterAll .empty hadmits

/-- In every reachable forest a child has its holder for its parent, stands once on the list
of its holder, and on no other list. -/
theorem Reachable.single_holder (h : f.Reachable) {p c : NodeId} (hc : c ∈ f.children p) :
    f.parent? c = some p ∧ (f.children p).count c = 1 ∧ ∀ q, q ≠ p → c ∉ f.children q := by
  have wf := h.wellFormed
  refine ⟨wf.held hc, List.count_eq_one_of_mem (wf.once p) hc, fun q hq hcq => ?_⟩
  exact hq (wf.eq_of_mem_children hcq hc)

/-- A root over `a`, which holds `b`, and over `c`, under the numbers 0, 1, 3 and 2. -/
def rootedCalls : List Call :=
  [.wrap (.dict [(.text "type", .text "root"), (.text "children", .list [
    .dict [(.text "name", .text "a"), (.text "children", .list [
      .dict [(.text "name", .text "b")]])],
    .dict [(.text "name", .text "c")]])])]

def rowCalls : List Call :=
  [.wrap (.dict [(.text "type", .text "root"), (.text "children", .list [
    .dict [(.text "name", .text "a")], .dict [(.text "name", .text "b")],
    .dict [(.text "name", .text "c")]])])]

/-- After `rootedCalls`, `b` moves under a new node that names `c` for its parent, and a splice
takes `a` into a wrapper before it fails. -/
def tangledCalls : List Call :=
  rootedCalls ++
    [.create .legacy (some 2) (.text "element") (.text "d") .null .null (.list [.node 3]),
      .splice 0 (.int 0) (.int 1) (.list [.dict [(.text "children", .list [.node 1])], .int 7])]

/-- After a failed splice the wrapper alone holds the node that it took. -/
theorem single_holder_of_failed_splice :
    (Forest.empty.afterAll tangledCalls).Reachable ∧
      1 ∈ (Forest.empty.afterAll tangledCalls).children 5 ∧
      (Forest.empty.afterAll tangledCalls).parent? 1 = some 5 ∧
      ((Forest.empty.afterAll tangledCalls).children 5).count 1 = 1 ∧
      ∀ q, q ≠ 5 → 1 ∉ (Forest.empty.afterAll tangledCalls).children q := by
  have reach : (Forest.empty.afterAll tangledCalls).Reachable :=
    ⟨tangledCalls, by decide +kernel, rfl⟩
  have hc : 1 ∈ (Forest.empty.afterAll tangledCalls).children 5 := by decide +kernel
  exact ⟨reach, hc, reach.single_holder hc⟩

end Forest
end SvgTree
