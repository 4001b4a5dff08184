/-
What a splice can come to.

A splice reads and builds its insertions, checks the nodes it got, and then exchanges
children.  `splice_cases` lists its endings once, with the forest it leaves in each, so that
later proofs never open `splice` again.
-/
import SvgTree.Proofs.Tree.Attach

namespace SvgTree

open Blueprint (named namedAll finds ofInsertions)

namespace Forest

variable {f₀ f : Forest} {took : List NodeId}

/-! ### Building the insertions -/

/-- What an item to insert became: an existing node is itself, any other is a new node. -/
def Became (f g : Forest) : Blueprint → NodeId → Prop
  | .existing i, n => n = i
  | _, n => f.size ≤ n ∧ n < g.size

theorem Became.lt_size {g : Forest} {b : Blueprint} {n : NodeId} (hb : Became f g b n)
    (hs : f.size ≤ g.size) (hn : ∀ i ∈ named b, i < f.size) : n < g.size := by
  cases b with
  | existing i =>
    have hi := hn i (by rw [named]; exact List.mem_singleton_self i)
    rw [show n = i from hb]
    exact Nat.lt_of_lt_of_le hi hs
  | fresh fields items => exact hb.2
  | broken e => exact hb.2

theorem realize_spec (u : Underway f₀ f [] took) (ofClass : NodeClass) {b : Blueprint}
    (hb : ∀ i, b ≠ .existing i) (hn : ∀ i ∈ named b, i < f₀.size) :
    ∃ g, Underway f₀ g [] (took ++ Find.taken [] (finds b)) ∧ f.size ≤ g.size ∧
      match Find.stop? [] (finds b) with
      | some d => f.realize ofClass none b = (g, .error (g.faultOf d))
      | none => f.realize ofClass none b = (g, .ok f.size) ∧ f.size < g.size := by
  cases b with
  | existing i => exact absurd rfl (hb i)
  | broken e => exact ⟨f, by simpa [finds, Find.taken] using u, Nat.le_refl _, rfl⟩
  | fresh fields items =>
    obtain ⟨g, hg, hlt, hrun⟩ := construct_spec u ofClass fields (.inl ⟨rfl, rfl⟩)
      (by rwa [named] at hn)
    refine ⟨g, hg, Nat.le_of_lt hlt, ?_⟩
    cases hstop : Find.stop? [] (finds (.fresh fields items)) with
    | some d => exact hrun.trans (congrArg _ (answer_of_some hstop))
    | none => exact ⟨hrun.trans (congrArg _ (answer_of_none hstop)), hlt⟩

theorem realizeAll_cons {b : Blueprint} (hb : ∀ i, b ≠ .existing i) (f : Forest)
    (ofClass : NodeClass) (rest : List Blueprint) (done : List NodeId) :
    f.realizeAll ofClass (b :: rest) done =
      match f.realize ofClass none b with
      | (g, .error e) => (g, .error e)
      | (g, .ok i) => g.realizeAll ofClass rest (i :: done) := by
  cases b with
  | existing i => exact absurd rfl (hb i)
  | fresh fields items => rfl
  | broken e => rfl

/-- What the building of items after those `done` comes to: the first fault, or a node for
every item. -/
structure BuildsAll (f₀ f g : Forest) (ofClass : NodeClass) (items : List Blueprint)
    (done : List NodeId) : Prop where
  le : f.size ≤ g.size
  stopped : ∀ d, Find.stop? [] (items.flatMap finds) = some d →
    f.realizeAll ofClass items done = (g, .error (g.faultOf d))
  built : Find.stop? [] (items.flatMap finds) = none →
    ∃ made, f.realizeAll ofClass items done = (g, .ok (done.reverse ++ made)) ∧
      List.Forall₂ (Became f₀ g) items made

namespace BuildsAll

variable {g h : Forest} {ofClass : NodeClass} {b : Blueprint} {rest : List Blueprint}
  {done : List NodeId}

theorem nil (f₀ f : Forest) (ofClass : NodeClass) (done : List NodeId) :
    BuildsAll f₀ f f ofClass [] done where
  le := Nat.le_refl _
  stopped _ h := by cases h
  built _ := ⟨[], by simp [realizeAll], .nil⟩

theorem cons_existing {i : NodeId} (x : BuildsAll f₀ f g ofClass rest (i :: done)) :
    BuildsAll f₀ f g ofClass (.existing i :: rest) done where
  le := x.le
  stopped e hstop := x.stopped e hstop
  built hstop := by
    obtain ⟨made, hrun, hmade⟩ := x.built hstop
    rw [List.reverse_cons, List.append_assoc, List.singleton_append] at hrun
    exact ⟨i :: made, hrun, .cons rfl hmade⟩

theorem cons_stopped {d : Find} (hb : ∀ i, b ≠ .existing i) (hle : f.size ≤ g.size)
    (hstop : Find.stop? [] (finds b) = some d)
    (hrun : f.realize ofClass none b = (g, .error (g.faultOf d))) :
    BuildsAll f₀ f g ofClass (b :: rest) done := by
  obtain ⟨-, hs⟩ := Find.taken_append_of_some (k := rest.flatMap finds) hstop
  rw [← List.flatMap_cons] at hs
  refine ⟨hle, fun e' he' => ?_, fun hnone => ?_⟩
  · rw [hs] at he'
    cases he'
    rw [realizeAll_cons hb, hrun]
  · rw [hs] at hnone
    cases hnone

theorem cons_new (hb : ∀ i, b ≠ .existing i) (hf : f₀.size ≤ f.size) (hlt : f.size < h.size)
    (hstop : Find.stop? [] (finds b) = none)
    (hrun : f.realize ofClass none b = (h, .ok f.size))
    (x : BuildsAll f₀ h g ofClass rest (f.size :: done)) :
    BuildsAll f₀ f g ofClass (b :: rest) done := by
  obtain ⟨-, hs⟩ := Find.taken_append_of_none (k := rest.flatMap finds) hstop
  rw [← List.flatMap_cons] at hs
  have hstep : f.realizeAll ofClass (b :: rest) done =
      h.realizeAll ofClass rest (f.size :: done) := by
    rw [realizeAll_cons hb, hrun]
  refine ⟨Nat.le_trans (Nat.le_of_lt hlt) x.le, fun e he => ?_, fun hnone => ?_⟩
  · rw [hs] at he
    rw [hstep, x.stopped e he]
  · rw [hs] at hnone
    obtain ⟨made, hrun', hmade⟩ := x.built hnone
    rw [List.reverse_cons, List.append_assoc, List.singleton_append] at hrun'
    refine ⟨f.size :: made, hstep.trans hrun', .cons ?_ hmade⟩
    have hnew : f₀.size ≤ f.size ∧ f.size < g.size := ⟨hf, Nat.lt_of_lt_of_le hlt x.le⟩
    cases b with
    | existing i => exact absurd rfl (hb i)
    | fresh fields items => exact hnew
    | broken e => exact hnew

end BuildsAll

/-- All items, one after the other: building stops at the first that does. -/
theorem realizeAll_spec (u : Underway f₀ f [] took) (ofClass : NodeClass)
    {items : List Blueprint} (hn : ∀ b ∈ items, ∀ i ∈ named b, i < f₀.size)
    (done : List NodeId) :
    ∃ g, Underway f₀ g [] (took ++ Find.taken [] (items.flatMap finds)) ∧
      BuildsAll f₀ f g ofClass items done := by
  induction items generalizing f took done with
  | nil => exact ⟨f, by simpa [Find.taken] using u, .nil f₀ f ofClass done⟩
  | cons b rest ih =>
    have hrest : ∀ b ∈ rest, ∀ i ∈ named b, i < f₀.size := fun b hb =>
      hn b (List.mem_cons_of_mem _ hb)
    by_cases hb : ∃ i, b = .existing i
    · obtain ⟨i, rfl⟩ := hb
      obtain ⟨g, hg, x⟩ := ih u hrest (i :: done)
      exact ⟨g, hg, x.cons_existing⟩
    · have hnew : ∀ i, b ≠ .existing i := fun i h => hb ⟨i, h⟩
      obtain ⟨g, hg, hle, hout⟩ := realize_spec u ofClass hnew (hn b List.mem_cons_self)
      rw [List.flatMap_cons]
      cases hstop : Find.stop? [] (finds b) with
      | some d =>
        rw [hstop] at hout
        rw [(Find.taken_append_of_some (k := rest.flatMap finds) hstop).1]
        exact ⟨g, hg, .cons_stopped hnew hle hstop hout⟩
      | none =>
        rw [hstop] at hout
        obtain ⟨hrun, hlt⟩ := hout
        obtain ⟨h, hh, x⟩ := ih hg hrest (f.size :: done)
        rw [(Find.taken_append_of_none (k := rest.flatMap finds) hstop).1, ← List.append_assoc]
        exact ⟨h, hh, .cons_new hnew u.size_le hlt hstop hrun x⟩

/-! ### Checks and places -/

theorem objection_eq_none_iff {f : Forest} (wf : f.WellFormed) {host : NodeId}
    (hhost : host < f.size) {nodes seen : List NodeId} :
    f.objection host nodes seen = none ↔
      nodes.Nodup ∧ ∀ i ∈ nodes, i ∉ seen ∧ ¬ f.Above i host := by
  induction nodes generalizing seen with
  | nil => simp [objection]
  | cons i rest ih =>
    rw [objection]
    by_cases hs : i ∈ seen
    · rw [if_pos (List.contains_iff_mem.mpr hs)]
      simp [hs]
    · rw [if_neg (fun h => hs (List.contains_iff_mem.mp h))]
      by_cases ha : f.Above i host
      · rw [if_pos ((wf.isAncestor_iff hhost).mpr ha)]
        simp [ha]
      · rw [if_neg (fun h => ha ((wf.isAncestor_iff hhost).mp h)), ih, List.nodup_cons]
        simp only [List.mem_cons, not_or, forall_eq_or_imp]
        constructor
        · rintro ⟨hn, h⟩
          exact ⟨⟨fun hi => (h i hi).1.1 rfl, hn⟩, ⟨hs, ha⟩, fun j hj => ⟨(h j hj).1.2, (h j hj).2⟩⟩
        · rintro ⟨⟨hi, hn⟩, -, h⟩
          exact ⟨hn, fun j hj => ⟨⟨fun hji => hi (hji ▸ hj), (h j hj).1⟩, (h j hj).2⟩⟩

theorem startIndex_le {len k : Nat} {place : Value.Number}
    (h : Value.startIndex len place = .ok k) : k ≤ len := by
  cases place with
  | whole n =>
    simp only [Value.startIndex, Except.ok.injEq] at h
    omega
  | real x =>
    simp only [Value.startIndex] at h
    split at h
    · split at h
      · cases h; exact Nat.zero_le _
      · cases h
    · split at h
      · cases h; exact Nat.le_refl _
      · cases h

theorem endIndex_bounds {len start k : Nat} {amount : Value.Number} (hs : start ≤ len)
    (h : Value.endIndex len start amount = .ok k) : start ≤ k ∧ k ≤ len := by
  cases amount with
  | whole n =>
    simp only [Value.endIndex, Except.ok.injEq] at h
    omega
  | real x =>
    simp only [Value.endIndex] at h
    split at h
    · cases h; exact ⟨hs, Nat.le_refl _⟩
    · cases h

/-! ### The endings of a splice -/

/-- Whether a count is refused before any insertion is read: no number, or below nought. -/
def unread (count : Value) : Bool := count.number?.all Value.Number.isNegative

def spliceFinds (f : Forest) (host : NodeId) (insertions : Value) : List Find :=
  (ofInsertions (f.node host).name insertions).flatMap finds

/-- The nodes that a splice takes under new nodes while it builds its insertions. -/
def spliceTakes (f : Forest) (host : NodeId) (count insertions : Value) : List NodeId :=
  if unread count then [] else Find.taken [] (f.spliceFinds host insertions)

def NamesExisting (f : Forest) (host : NodeId) (insertions : Value) : Prop :=
  ∀ b ∈ ofInsertions (f.node host).name insertions, ∀ i ∈ named b, i < f.size

instance (f : Forest) (host : NodeId) (insertions : Value) :
    Decidable (f.NamesExisting host insertions) :=
  inferInstanceAs (Decidable (∀ b ∈ ofInsertions (f.node host).name insertions,
    ∀ i ∈ named b, i < f.size))

structure Exchanges (f : Forest) (host : NodeId) (start count insertions : Value)
    (g : Forest) (nodes : List NodeId) (first last : Nat) : Prop where
  became : List.Forall₂ (Became f g) (ofInsertions (f.node host).name insertions) nodes
  nodup : nodes.Nodup
  clear : ∀ i ∈ nodes, ¬ g.Above i host
  le : first ≤ last
  eq : f.splice host start count insertions =
    ((g.exchange host first last nodes).1, .ok (g.exchange host first last nodes).2)

/-- How a splice can end with the forest `g` built: in a fault there, or in an exchange. -/
inductive SpliceEnd (f : Forest) (host : NodeId) (start count insertions : Value) (g : Forest) :
    Prop where
  | failed (e : Fault) : f.splice host start count insertions = (g, .error e) →
    SpliceEnd f host start count insertions g
  | exchanged {nodes : List NodeId} {first last : Nat} :
    Exchanges f host start count insertions g nodes first last →
      SpliceEnd f host start count insertions g

theorem spliceEnd_of_built {g : Forest} (wf : g.WellFormed) {host : NodeId} (hhost : host < g.size)
    (start : Value) {count insertions : Value} {amount : Value.Number} {nodes : List NodeId}
    (hcount : count.number? = some amount) (hneg : amount.isNegative = false)
    (hrun : f.realizeAll (f.node host).ofClass (ofInsertions (f.node host).name insertions) [] =
      (g, .ok nodes))
    (hmade : List.Forall₂ (Became f g) (ofInsertions (f.node host).name insertions) nodes) :
    SpliceEnd f host start count insertions g := by
  cases hobj : g.objection host nodes [] with
  | some e => exact .failed e (by simp [splice, hcount, hneg, hrun, hobj])
  | none =>
    obtain ⟨hnodup, hclear⟩ := (objection_eq_none_iff wf hhost).mp hobj
    cases hplace : start.number? with
    | none => exact .failed .wrongOperand (by simp [splice, hcount, hneg, hrun, hobj, hplace])
    | some place =>
      cases hfirst : Value.startIndex (g.children host).length place with
      | error e => exact .failed e (by simp [splice, hcount, hneg, hrun, hobj, hplace, hfirst])
      | ok first =>
        cases hlast : Value.endIndex (g.children host).length first amount with
        | error e =>
          exact .failed e (by simp [splice, hcount, hneg, hrun, hobj, hplace, hfirst, hlast])
        | ok last =>
          have hle := (endIndex_bounds (startIndex_le hfirst) hlast).1
          have heq : f.splice host start count insertions =
              ((g.exchange host first last nodes).1, .ok (g.exchange host first last nodes).2) := by
            simp [splice, hcount, hneg, hrun, hobj, hplace, hfirst, hlast]
          exact .exchanged ⟨hmade, hnodup, fun i hi => (hclear i hi).2, hle, heq⟩

/-- A splice ends with its insertions built as far as they go. -/
theorem splice_cases (wf : f.WellFormed) {host : NodeId} (hhost : host < f.size)
    (start count : Value) {insertions : Value} (hn : f.NamesExisting host insertions) :
    ∃ g, Underway f g [] (f.spliceTakes host count insertions) ∧
      SpliceEnd f host start count insertions g := by
  have hstart : unread count = true → Underway f f [] (f.spliceTakes host count insertions) := by
    intro h
    rw [spliceTakes, if_pos h]
    exact Underway.start wf (by simp)
  cases hcount : count.number? with
  | none =>
    have hunread : unread count = true := by
      rw [unread, hcount]
      rfl
    exact ⟨f, hstart hunread, .failed .wrongOperand (by simp [splice, hcount])⟩
  | some amount =>
    have hunread : unread count = amount.isNegative := by
      rw [unread, hcount]
      rfl
    cases hneg : amount.isNegative with
    | true =>
      exact ⟨f, hstart (hunread.trans hneg),
        .failed (.negativeCount count) (by simp [splice, hcount, hneg])⟩
    | false =>
      obtain ⟨g, hg, x⟩ := realizeAll_spec (Underway.start wf (by simp)) (f.node host).ofClass hn []
      refine ⟨g, ?_, ?_⟩
      · rw [spliceTakes, hunread, hneg]
        exact hg
      cases hstop : Find.stop? []
        ((ofInsertions (f.node host).name insertions).flatMap finds) with
      | some d =>
        have hrun := x.stopped d hstop
        exact .failed (g.faultOf d) (by simp [splice, hcount, hneg, hrun])
      | none =>
        obtain ⟨nodes, hrun, hmade⟩ := x.built hstop
        rw [List.reverse_nil, List.nil_append] at hrun
        exact spliceEnd_of_built hg.wellFormed (Nat.lt_of_lt_of_le hhost x.le) start hcount hneg
          hrun hmade

theorem Exchanges.nodes_lt {host : NodeId} {start count insertions : Value} {g : Forest}
    {nodes : List NodeId} {first last : Nat}
    (x : Exchanges f host start count insertions g nodes first last)
    (hn : f.NamesExisting host insertions) (hle : f.size ≤ g.size) :
    ∀ i ∈ nodes, i < g.size := by
  intro i hi
  obtain ⟨k, hk, rfl⟩ := List.getElem_of_mem hi
  have hb : k < (ofInsertions (f.node host).name insertions).length := by
    rw [x.became.length_eq]; exact hk
  exact (x.became.get hb hk).lt_size hle (hn _ (List.getElem_mem hb))

end Forest
end SvgTree
