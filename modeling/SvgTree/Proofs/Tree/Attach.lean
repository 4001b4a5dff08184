/-
Building runs as its finds say.

The worklist of `attach` meets the finds of a raw tree in the order of `Blueprint.finds`,
takes the nodes before the first that ends it, and answers with the fault there.  `construct`
and `realizeAll` follow.
-/
import SvgTree.Proofs.Tree.Building

namespace SvgTree

open Blueprint (named namedAll ownFinds findsBelow findsDeeper)

namespace Pending

def finds (p : Pending) : List Find := ownFinds p.items ++ findsDeeper p.items

def findsOf (waiting : List Pending) : List Find := waiting.flatMap finds

/-- A waiting node is new, and its items name old nodes only. -/
structure Ready (old : Nat) (f : Forest) (p : Pending) : Prop where
  new : old ≤ p.host
  host_lt : p.host < f.size
  named_lt : ∀ i ∈ namedAll p.items, i < old

theorem Ready.mono {old : Nat} {f g : Forest} {p : Pending} (h : p.Ready old f)
    (hs : f.size ≤ g.size) : p.Ready old g :=
  ⟨h.new, Nat.lt_of_lt_of_le h.host_lt hs, h.named_lt⟩

theorem findsOf_cons (p : Pending) (rest : List Pending) :
    findsOf (p :: rest) = p.finds ++ findsOf rest := rfl

end Pending

open Pending (findsOf findsOf_cons Ready)

namespace Forest

/-- The fault of a building that has come to this forest and ends there.  A node that may not be
taken is refused. -/
def faultOf (f : Forest) : Find → Fault
  | .ok i => f.refusal i .adoptCycle
  | .error e => e

variable {f₀ f : Forest} {barred took : List NodeId}

theorem ready_addUnder {host : NodeId} {fields : Fields} {inner : List Blueprint}
    {waiting : List Pending} (u : Underway f₀ f barred took) (hhost : host < f.size)
    (hn : ∀ i ∈ namedAll inner, i < f₀.size) (hw : ∀ p ∈ waiting, p.Ready f₀.size f) :
    ∀ p ∈ (⟨(f.addUnder host fields).2, inner⟩ : Pending) :: waiting,
      p.Ready f₀.size (f.addUnder host fields).1 := by
  have hgrow := lt_size_addUnder hhost fields
  intro p hp
  rcases List.mem_cons.mp hp with rfl | hp
  · rw [addUnder_snd hhost]
    exact ⟨u.size_le, hgrow, hn⟩
  · exact (hw p hp).mono (Nat.le_of_lt hgrow)

/-- What working off a list of items comes to: the first fault in the list itself, or more
that waits, with what the list holds deeper on top. -/
structure WorksOff (f₀ f g : Forest) (barred : List NodeId) (host : NodeId)
    (items : List Blueprint) (waiting : List Pending) : Prop where
  le : f.size ≤ g.size
  stopped : ∀ d, Find.stop? barred (ownFinds items) = some d →
    f.attachItems host items waiting = (g, .error (g.faultOf d))
  worked : Find.stop? barred (ownFinds items) = none →
    ∃ left, f.attachItems host items waiting = (g, .ok left) ∧
      (∀ p ∈ left, p.Ready f₀.size g) ∧ findsOf left = findsDeeper items ++ findsOf waiting

namespace WorksOff

variable {g h : Forest} {host : NodeId} {rest : List Blueprint} {waiting : List Pending}

theorem nil (hw : ∀ p ∈ waiting, p.Ready f₀.size f) :
    WorksOff f₀ f f barred host [] waiting where
  le := Nat.le_refl _
  stopped _ hstop := by cases hstop
  worked _ := ⟨waiting, rfl, hw, rfl⟩

theorem broken (f₀ f : Forest) (barred : List NodeId) (host : NodeId) (e : Fault)
    (rest : List Blueprint) (waiting : List Pending) :
    WorksOff f₀ f f barred host (.broken e :: rest) waiting where
  le := Nat.le_refl _
  stopped _ hstop := by
    cases hstop
    rfl
  worked hstop := by cases hstop

theorem refused {i : NodeId} (hi : i ∈ barred)
    (hadopt : f.adopt host i = .error (f.refusal i .adoptCycle)) :
    WorksOff f₀ f f barred host (.existing i :: rest) waiting := by
  have hstop : Find.stop? barred (ownFinds (.existing i :: rest)) = some (.ok i) := if_pos hi
  refine ⟨Nat.le_refl _, fun e he => ?_, fun hnone => ?_⟩
  · rw [hstop] at he
    cases he
    simp only [attachItems, hadopt, faultOf]
  · rw [hstop] at hnone
    cases hnone

theorem taken {i : NodeId} (hi : i ∉ barred) (hadopt : f.adopt host i = .ok h)
    (hs : h.size = f.size) (x : WorksOff f₀ h g barred host rest waiting) :
    WorksOff f₀ f g barred host (.existing i :: rest) waiting := by
  have hstop : Find.stop? barred (ownFinds (.existing i :: rest)) =
      Find.stop? barred (ownFinds rest) := if_neg hi
  have hstep : f.attachItems host (.existing i :: rest) waiting =
      h.attachItems host rest waiting := by
    simp only [attachItems, hadopt]
  refine ⟨by rw [← hs]; exact x.le, fun e he => ?_, fun hnone => ?_⟩
  · rw [hstop] at he
    rw [hstep, x.stopped e he]
  · rw [hstop] at hnone
    obtain ⟨left, hrun, hready, hfinds⟩ := x.worked hnone
    refine ⟨left, hstep.trans hrun, hready, ?_⟩
    rw [hfinds, findsDeeper, findsBelow, List.append_nil]

theorem fresh {fields : Fields} {inner : List Blueprint}
    (hs : f.size ≤ (f.addUnder host fields).1.size)
    (x : WorksOff f₀ (f.addUnder host fields).1 g barred host rest
      (⟨(f.addUnder host fields).2, inner⟩ :: waiting)) :
    WorksOff f₀ f g barred host (.fresh fields inner :: rest) waiting where
  le := Nat.le_trans hs x.le
  stopped e hstop := x.stopped e hstop
  worked hstop := by
    obtain ⟨left, hrun, hready, hfinds⟩ := x.worked hstop
    refine ⟨left, hrun, hready, ?_⟩
    rw [hfinds, findsOf_cons, findsDeeper, findsBelow, Pending.finds]
    simp only [List.append_assoc]

end WorksOff

/-- One list of items: the nodes in the list itself are taken up to the first that is barred
and the first fault. -/
theorem attachItems_spec {host : NodeId} {items : List Blueprint} {waiting : List Pending}
    (u : Underway f₀ f barred took) (hnew : f₀.size ≤ host) (hhost : host < f.size)
    (hn : ∀ i ∈ namedAll items, i < f₀.size)
    (hw : ∀ p ∈ waiting, p.Ready f₀.size f) :
    ∃ g, Underway f₀ g barred (took ++ Find.taken barred (ownFinds items)) ∧
      WorksOff f₀ f g barred host items waiting := by
  induction items generalizing f took waiting with
  | nil => exact ⟨f, by simpa [ownFinds, Find.taken] using u, .nil hw⟩
  | cons b rest ih =>
    have hrest : ∀ i ∈ namedAll rest, i < f₀.size := fun i hi =>
      hn i (by rw [namedAll]; exact List.mem_append_right _ hi)
    cases b with
    | broken e =>
      exact ⟨f, by simpa [ownFinds, Find.taken] using u, .broken f₀ f barred host e rest waiting⟩
    | fresh fields inner =>
      have hinner : ∀ i ∈ namedAll inner, i < f₀.size := fun i hi =>
        hn i (by rw [namedAll]; exact List.mem_append_left _ hi)
      have hgrow := Nat.le_of_lt (lt_size_addUnder hhost fields)
      obtain ⟨g, hg, x⟩ := ih (u.addUnder hnew hhost fields) (Nat.lt_of_lt_of_le hhost hgrow)
        hrest (ready_addUnder u hhost hinner hw)
      exact ⟨g, hg, x.fresh hgrow⟩
    | existing i =>
      have hi : i < f₀.size := by
        refine hn i ?_
        rw [namedAll, named]
        exact List.mem_append_left _ (by simp)
      have hif : i < f.size := Nat.lt_of_lt_of_le hi u.size_le
      rw [ownFinds, Find.taken]
      rcases adopt_cases u.wellFormed hhost hif with ⟨habove, hadopt⟩ | ⟨g, hadopt, hclear, wf, r⟩
      · have hbar := (u.above_iff hi hnew hhost).mp habove
        rw [if_pos hbar]
        exact ⟨f, by simpa using u, .refused hbar hadopt⟩
      · have hbar : i ∉ barred := fun h => hclear ((u.above_iff hi hnew hhost).mpr h)
        have hsize := r.size_eq
        obtain ⟨g', hg', x⟩ := ih (u.take hnew hi hbar wf r) (by rw [hsize]; exact hhost)
          hrest (fun p hp => (hw p hp).mono (Nat.le_of_eq hsize.symm))
        rw [List.append_assoc, List.singleton_append] at hg'
        rw [if_neg hbar]
        exact ⟨g', hg', x.taken hbar hadopt hsize⟩

def answer {α : Type} (f : Forest) (barred : List NodeId) (finds : List Find) (done : α) :
    Except Fault α :=
  match Find.stop? barred finds with
  | some d => .error (f.faultOf d)
  | none => .ok done

theorem answer_of_some {α : Type} {finds : List Find} {d : Find} {done : α}
    (h : Find.stop? barred finds = some d) :
    f.answer barred finds done = .error (f.faultOf d) := by
  rw [answer, h]

theorem answer_of_none {α : Type} {finds : List Find} {done : α}
    (h : Find.stop? barred finds = none) : f.answer barred finds done = .ok done := by
  rw [answer, h]

/-- The worklist meets its finds from the top down. -/
theorem attach_spec {waiting : List Pending} (u : Underway f₀ f barred took)
    (hw : ∀ p ∈ waiting, p.Ready f₀.size f) :
    ∃ g, Underway f₀ g barred (took ++ Find.taken barred (findsOf waiting)) ∧
      f.size ≤ g.size ∧ f.attach waiting = (g, g.answer barred (findsOf waiting) ()) := by
  induction f, waiting using attach.induct generalizing took with
  | case1 f =>
    refine ⟨f, ?_, Nat.le_refl _, ?_⟩
    · simpa [findsOf, Find.taken] using u
    · rw [attach]
      rfl
  | case2 f p rest g e hrun =>
    have hp := hw p List.mem_cons_self
    obtain ⟨g', u', x⟩ := attachItems_spec u hp.new hp.host_lt hp.named_lt
      (fun p hp => hw p (List.mem_cons_of_mem _ hp))
    rw [findsOf_cons, Pending.finds, List.append_assoc]
    cases hstop : Find.stop? barred (ownFinds p.items) with
    | none =>
      obtain ⟨left, hrun', -⟩ := x.worked hstop
      rw [hrun] at hrun'
      cases hrun'
    | some d =>
      have hrun' := x.stopped d hstop
      rw [hrun] at hrun'
      cases hrun'
      obtain ⟨ht, hs⟩ := Find.taken_append_of_some (k := findsDeeper p.items ++ findsOf rest) hstop
      refine ⟨g, ?_, x.le, ?_⟩
      · rw [ht]
        exact u'
      · rw [attach, hrun, answer_of_some hs]
  | case3 f p rest g left hrun ih =>
    have hp := hw p List.mem_cons_self
    obtain ⟨g', u', x⟩ := attachItems_spec u hp.new hp.host_lt hp.named_lt
      (fun p hp => hw p (List.mem_cons_of_mem _ hp))
    rw [findsOf_cons, Pending.finds, List.append_assoc]
    cases hstop : Find.stop? barred (ownFinds p.items) with
    | some d =>
      have hrun' := x.stopped d hstop
      rw [hrun] at hrun'
      cases hrun'
    | none =>
      obtain ⟨left', hrun', hready, hfinds⟩ := x.worked hstop
      rw [hrun] at hrun'
      cases hrun'
      obtain ⟨h, uh, hle, hattach⟩ := ih u' hready
      rw [hfinds] at uh hattach
      obtain ⟨ht, hs⟩ := Find.taken_append_of_none (k := findsDeeper p.items ++ findsOf rest) hstop
      refine ⟨h, ?_, Nat.le_trans x.le hle, ?_⟩
      · rw [ht, ← List.append_assoc]
        exact uh
      · rw [attach, hrun, answer, hs]
        exact hattach

theorem construct_eq (f : Forest) (ofClass : NodeClass) (parent : Option NodeId) (fields : Fields)
    (items : List Blueprint) :
    f.construct ofClass parent fields items =
      let run := (f.add { toFields := fields, ofClass, parent, children := [] }).1.attach
        [⟨f.size, items⟩]
      (run.1, run.2.map fun _ => f.size) := rfl

/-- A new node is built under a parent from which building is barred. -/
theorem construct_spec (u : Underway f₀ f barred took) (ofClass : NodeClass)
    {parent : Option NodeId} (fields : Fields) {items : List Blueprint}
    (hp : (parent = none ∧ barred = []) ∨ ∃ q, parent = some q ∧ q < f.size ∧ f.Climbs q barred)
    (hn : ∀ i ∈ namedAll items, i < f₀.size) :
    ∃ g, Underway f₀ g barred (took ++ Find.taken barred (ownFinds items ++ findsDeeper items)) ∧
      f.size < g.size ∧ f.construct ofClass parent fields items =
        (g, g.answer barred (ownFinds items ++ findsDeeper items) f.size) := by
  have u' := u.add (n := { toFields := fields, ofClass, parent, children := [] }) rfl
    (hp.imp_right fun ⟨q, h, hq, hc⟩ => ⟨q, [], h, hq, hc, by simp⟩)
  have hready : ∀ p ∈ [(⟨f.size, items⟩ : Pending)], p.Ready f₀.size
      (f.add { toFields := fields, ofClass, parent, children := [] }).1 := by
    intro p hp
    rw [List.mem_singleton.mp hp]
    exact ⟨u.size_le, lt_size_add .., hn⟩
  obtain ⟨g, hg, hle, hrun⟩ := attach_spec u' hready
  have hfinds : findsOf [⟨f.size, items⟩] = ownFinds items ++ findsDeeper items :=
    List.append_nil _
  rw [hfinds] at hg hrun
  rw [size_add] at hle
  refine ⟨g, hg, hle, ?_⟩
  rw [construct_eq, hrun]
  simp only [answer]
  cases Find.stop? barred (ownFinds items ++ findsDeeper items) <;> rfl

end Forest
end SvgTree
