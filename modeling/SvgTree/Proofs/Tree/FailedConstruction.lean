/-
What a construction that fails leaves behind.

A new node takes existing ones while its items are worked off, and what it took before the first
fault stays with it.  Nothing else of the old nodes changes.  So a construction that fails has
changed nothing just when the first fault stands before every existing node, in the order in
which building comes to them: what stands in the list itself, and then what stands below its new
nodes, the last of them first.
-/
import SvgTree.Proofs.Tree.FailedSplice

namespace SvgTree

open Blueprint (named namedAll finds ownFinds findsDeeper)

/-- One construction with what it is given: a node of its own, or a raw tree, under a parent or
as a root. -/
inductive Making where
  | create (ofClass : NodeClass) (parent : Option NodeId)
    (kind name value attributes items : Value)
  | wrapUnder (ofClass : NodeClass) (parent : Option NodeId) (raw : Value)
  | wrap (raw : Value)

namespace Making

def call : Making → Call
  | create ofClass parent kind name value attributes items =>
    .create ofClass parent kind name value attributes items
  | wrapUnder ofClass parent raw => .wrapUnder ofClass parent raw
  | wrap raw => .wrap raw

def ofClass : Making → NodeClass
  | create ofClass .. => ofClass
  | wrapUnder ofClass .. => ofClass
  | wrap _ => .legacy

def parent : Making → Option NodeId
  | create _ parent .. => parent
  | wrapUnder _ parent _ => parent
  | wrap _ => none

def blueprint : Making → Blueprint
  | create _ _ kind name value attributes items =>
    .ofFields ((Attributes.ofInput attributes).map fun m => { kind, name, value, attributes := m })
      (Blueprint.ofSequence items)
  | wrapUnder _ _ raw => .ofValue raw
  | wrap .null => .broken .noTree
  | wrap (.dict entries) => .ofValue (.dict entries)
  | wrap other => .broken (.notMapping other)

end Making

namespace Forest

variable {f g : Forest} {m : Making} {e : Fault}

def make (f : Forest) : Making → Forest × Except Fault NodeId
  | .create ofClass parent kind name value attributes items =>
    f.create ofClass parent kind name value attributes items
  | .wrapUnder ofClass parent raw => f.ofRawUnder ofClass parent raw
  | .wrap raw => f.wrap raw

theorem after_call (f : Forest) (m : Making) : f.after m.call = (f.make m).1 := by
  cases m <;> rfl

theorem make_eq (f : Forest) (m : Making) :
    f.make m = f.realize m.ofClass m.parent m.blueprint := by
  cases m with
  | create ofClass parent kind name value attributes items =>
    rw [make, create, Making.blueprint]
    cases Attributes.ofInput attributes <;> rfl
  | wrapUnder ofClass parent raw => rfl
  | wrap raw => cases raw <;> rfl

theorem Admits.parent_lt (h : f.Admits m.call) : ∀ p ∈ m.parent, p < f.size := by
  cases m with
  | create => exact h.1
  | wrapUnder => exact h.1
  | wrap => simp [Making.parent]

theorem Admits.named_lt (h : f.Admits m.call) : ∀ i ∈ named m.blueprint, i < f.size := by
  cases m with
  | create ofClass parent kind name value attributes items =>
    rw [Making.blueprint]
    cases Attributes.ofInput attributes with
    | error e => simp [Except.map, Blueprint.ofFields, named]
    | ok attributes => exact h.2
  | wrapUnder ofClass parent raw => exact h.2
  | wrap raw =>
    cases raw with
    | dict entries => exact h
    | _ => simp [Making.blueprint, named]

/-! ### Building under a given parent -/

/-- The nodes that may not be taken: the given parent and what stands above it. -/
def barredBy (f : Forest) (parent : Option NodeId) : List NodeId := (parent.map f.lineage).getD []

theorem WellFormed.barredBy_cases (wf : f.WellFormed) {parent : Option NodeId}
    (hp : ∀ p ∈ parent, p < f.size) :
    (parent = none ∧ f.barredBy parent = []) ∨
      ∃ q, parent = some q ∧ q < f.size ∧ f.Climbs q (f.barredBy parent) := by
  cases parent with
  | none => exact .inl ⟨rfl, rfl⟩
  | some q =>
    obtain ⟨l, hl⟩ := wf.grounded q
    refine .inr ⟨q, rfl, hp q rfl, ?_⟩
    show f.Climbs q (f.lineage q)
    rwa [wf.lineage_eq (hp q rfl) hl]

theorem WellFormed.underway (wf : f.WellFormed) {parent : Option NodeId}
    (hp : ∀ p ∈ parent, p < f.size) : Underway f f (f.barredBy parent) [] := by
  refine .start wf fun i hi => ?_
  rcases wf.barredBy_cases hp with ⟨-, hnil⟩ | ⟨q, -, hq, hclimb⟩
  · rw [hnil] at hi
    cases hi
  · exact wf.lt_size_of_climbs hq hclimb hi

def makingTakes (f : Forest) (m : Making) : List NodeId :=
  Find.taken (f.barredBy m.parent) (finds m.blueprint)

theorem grown_make (wf : f.WellFormed) (h : f.Admits m.call) :
    Grown f (f.make m).1 (f.makingTakes m) := by
  have hn := h.named_lt
  rw [make_eq, makingTakes]
  cases hb : m.blueprint with
  | existing i => exact .refl f
  | broken e => exact .refl f
  | fresh fields items =>
    rw [hb, named] at hn
    obtain ⟨g, hg, -, hrun⟩ := construct_spec (wf.underway h.parent_lt) m.ofClass fields
      (wf.barredBy_cases h.parent_lt) hn
    rw [realize, hrun]
    exact hg.toGrown

/-- In every reachable forest a construction that fails leaves the old nodes with all they hold.
Those that it took stand under new nodes and on no old list, and everything is as it was just
when it took none.  No list of items is the list of children of an old node here; `createOver` is
the construction over such a list. -/
theorem Reachable.failed_construction (hf : f.Reachable) (h : f.Admits m.call)
    (hrun : f.make m = (g, .error e)) :
    f.after m.call = g ∧ Grown f g (f.makingTakes m) ∧
      ((∀ i, i < f.size → g.parent? i = f.parent? i ∧ g.children i = f.children i) ↔
        f.makingTakes m = []) := by
  have wf := hf.wellFormed
  have hg := grown_make wf h
  rw [hrun] at hg
  have hlt : ∀ i ∈ f.makingTakes m, i < f.size := fun i hi =>
    h.named_lt i (Blueprint.mem_named_of_finds (Find.ok_mem_of_mem_taken hi))
  refine ⟨by rw [after_call, hrun], hg, ?_⟩
  rw [← hg.unchanged_iff wf hlt]
  refine forall₂_congr fun i hi => ⟨fun h => ?_, fun h => ?_⟩
  · exact node?_congr (hg.holds_eq hi) h.1 h.2
  · rw [parent?, parent?, children, children, h]
    exact ⟨rfl, rfl⟩

/-- A new node that takes `c` and then cannot take the root, which stands above its parent. -/
def takeThenClimb : Making :=
  .create .legacy (some 0) (.text "element") (.text "g") .null .null (.list [.node 2, .node 0])

theorem failed_construction_of_rooted :
    (Forest.empty.afterAll rootedCalls).Reachable ∧
      (Forest.empty.afterAll rootedCalls).Admits takeThenClimb.call ∧
      (Forest.empty.afterAll rootedCalls).makingTakes takeThenClimb = [2] ∧
      ∃ g e, (Forest.empty.afterAll rootedCalls).make takeThenClimb = (g, .error e) ∧
        e.isRefusal = true ∧ Grown (Forest.empty.afterAll rootedCalls) g [2] := by
  have reach : (Forest.empty.afterAll rootedCalls).Reachable :=
    ⟨rootedCalls, by decide +kernel, rfl⟩
  have admits : (Forest.empty.afterAll rootedCalls).Admits takeThenClimb.call := by
    decide +kernel
  have takes : (Forest.empty.afterAll rootedCalls).makingTakes takeThenClimb = [2] := by
    decide +kernel
  have fails : ((Forest.empty.afterAll rootedCalls).make takeThenClimb).2.mapError
      Fault.isRefusal = .error true := by
    decide +kernel
  cases he : ((Forest.empty.afterAll rootedCalls).make takeThenClimb).2 with
  | ok n =>
    rw [he] at fails
    cases fails
  | error e =>
    rw [he] at fails
    obtain ⟨-, hg, -⟩ := reach.failed_construction admits (Prod.ext rfl he)
    rw [takes] at hg
    exact ⟨reach, admits, takes, _, e, Prod.ext rfl he, Except.error.inj fails, hg⟩

/-- The construction is refused, and yet the root has lost a child. -/
theorem failed_construction_moves :
    (Forest.empty.afterAll rootedCalls).Reachable ∧
      (Forest.empty.afterAll rootedCalls).Admits takeThenClimb.call ∧
      ((Forest.empty.afterAll rootedCalls).make takeThenClimb).2.mapError Fault.isRefusal =
        .error true ∧
      (Forest.empty.afterAll rootedCalls).children 0 = [1, 2] ∧
      (Forest.empty.afterAll rootedCalls).parent? 2 = some 0 ∧
      ((Forest.empty.afterAll rootedCalls).make takeThenClimb).1.children 0 = [1] ∧
      ((Forest.empty.afterAll rootedCalls).make takeThenClimb).1.parent? 2 = some 4 := by
  refine ⟨⟨rootedCalls, by decide +kernel, rfl⟩, ?_⟩
  decide +kernel

end Forest
end SvgTree
