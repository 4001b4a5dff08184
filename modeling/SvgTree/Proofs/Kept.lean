/-
What every call keeps.

Whatever a call does to a forest it does in steps of few kinds: a node more, by itself or
under a host, a node hung up elsewhere, and edits that leave the shape as it is.  A property
that each kind of step keeps is kept by every call, also by one that fails.  Only a node that
is made with a given parent is a step of its own.
-/
import SvgTree.Proofs.Rule.Shape

namespace SvgTree

open Blueprint (named namedAll ofInsertions)

namespace Forest

/-- A property of well-formed forests that every kind of step keeps. -/
structure Kept (P : Forest → Prop) : Prop where
  wellFormed : ∀ {f : Forest}, P f → f.WellFormed
  shape : ∀ {f g : Forest}, P f → SameShape f g → P g
  add : ∀ {f : Forest} (fields : Fields) (ofClass : NodeClass), P f →
    P (f.add ⟨fields, ofClass, none, []⟩).1
  addUnder : ∀ {f : Forest} {host : NodeId} (fields : Fields), P f → host < f.size →
    P (f.addUnder host fields).1
  rehang : ∀ {f g : Forest} {host : NodeId} {now : List NodeId}, P f → host < f.size →
    Rehung f g host now → g.WellFormed → P g

def Waits (f : Forest) (p : Pending) : Prop :=
  p.host < f.size ∧ ∀ i ∈ namedAll p.items, i < f.size

theorem Waits.mono {f g : Forest} {p : Pending} (h : f.Waits p) (hs : f.size ≤ g.size) :
    g.Waits p :=
  ⟨Nat.lt_of_lt_of_le h.1 hs, fun i hi => Nat.lt_of_lt_of_le (h.2 i hi) hs⟩

namespace Kept

variable {P : Forest → Prop} {f g : Forest} {host : NodeId}

/-! ### Building -/

theorem attachItems (k : Kept P) (hP : P f) {items : List Blueprint} {waiting : List Pending}
    (hhost : host < f.size) (hn : ∀ i ∈ namedAll items, i < f.size)
    (hw : ∀ p ∈ waiting, f.Waits p) :
    P (f.attachItems host items waiting).1 ∧ f.size ≤ (f.attachItems host items waiting).1.size ∧
      ∀ left, (f.attachItems host items waiting).2 = .ok left →
        ∀ p ∈ left, (f.attachItems host items waiting).1.Waits p := by
  induction items generalizing f waiting with
  | nil =>
    refine ⟨hP, Nat.le_refl _, fun left hleft => ?_⟩
    cases hleft
    exact hw
  | cons b rest ih =>
    have hrest : ∀ i ∈ namedAll rest, i < f.size := fun i hi =>
      hn i (by rw [namedAll]; exact List.mem_append_right _ hi)
    cases b with
    | broken e => exact ⟨hP, Nat.le_refl _, fun left hleft => by cases hleft⟩
    | existing i =>
      have hi : i < f.size := hn i (by rw [namedAll, named]; exact List.mem_append_left _ (by simp))
      rcases adopt_cases (k.wellFormed hP) hhost hi with ⟨-, hadopt⟩ | ⟨g, hadopt, -, wf, r⟩
      · simp only [Forest.attachItems, hadopt]
        exact ⟨hP, Nat.le_refl _, fun left hleft => by cases hleft⟩
      · simp only [Forest.attachItems, hadopt]
        rw [← r.size_eq] at hhost hrest ⊢
        exact ih (k.rehang hP (r.size_eq ▸ hhost) r wf) hhost hrest
          fun p hp => (hw p hp).mono (Nat.le_of_eq r.size_eq.symm)
    | fresh fields inner =>
      have hgrow := Nat.le_of_lt (lt_size_addUnder hhost fields)
      have hnew : (f.addUnder host fields).1.Waits ⟨(f.addUnder host fields).2, inner⟩ := by
        refine ⟨?_, fun i hi => Nat.lt_of_lt_of_le (hn i ?_) hgrow⟩
        · rw [addUnder_snd hhost]
          exact lt_size_addUnder hhost fields
        · rw [namedAll, named]
          exact List.mem_append_left _ hi
      have hall : ∀ p ∈ (⟨(f.addUnder host fields).2, inner⟩ : Pending) :: waiting,
          (f.addUnder host fields).1.Waits p := by
        intro p hp
        rcases List.mem_cons.mp hp with rfl | hp
        · exact hnew
        · exact (hw p hp).mono hgrow
      obtain ⟨hPg, hle, hleft⟩ := ih (k.addUnder fields hP hhost) (Nat.lt_of_lt_of_le hhost hgrow)
        (fun i hi => Nat.lt_of_lt_of_le (hrest i hi) hgrow) hall
      exact ⟨hPg, Nat.le_trans hgrow hle, hleft⟩

theorem attach (k : Kept P) (hP : P f) {waiting : List Pending}
    (hw : ∀ p ∈ waiting, f.Waits p) :
    P (f.attach waiting).1 ∧ f.size ≤ (f.attach waiting).1.size := by
  induction f, waiting using Forest.attach.induct with
  | case1 f =>
    rw [Forest.attach]
    exact ⟨hP, Nat.le_refl _⟩
  | case2 f p rest g e hrun =>
    have hp := hw p List.mem_cons_self
    have step := k.attachItems hP hp.1 hp.2 fun p hp => hw p (List.mem_cons_of_mem _ hp)
    rw [hrun] at step
    rw [Forest.attach, hrun]
    exact ⟨step.1, step.2.1⟩
  | case3 f p rest g left hrun ih =>
    have hp := hw p List.mem_cons_self
    have step := k.attachItems hP hp.1 hp.2 fun p hp => hw p (List.mem_cons_of_mem _ hp)
    rw [hrun] at step
    obtain ⟨hPg, hle, hleft⟩ := step
    obtain ⟨hPh, hle'⟩ := ih hPg (hleft left rfl)
    rw [Forest.attach, hrun]
    exact ⟨hPh, Nat.le_trans hle hle'⟩

theorem construct (k : Kept P) {ofClass : NodeClass} {parent : Option NodeId} {fields : Fields}
    {items : List Blueprint} (hP : P (f.add ⟨fields, ofClass, parent, []⟩).1)
    (hn : ∀ i ∈ namedAll items, i < f.size) :
    P (f.construct ofClass parent fields items).1 ∧
      f.size ≤ (f.construct ofClass parent fields items).1.size := by
  have hw : ∀ p ∈ [(⟨f.size, items⟩ : Pending)],
      (f.add ⟨fields, ofClass, parent, []⟩).1.Waits p := by
    intro p hp
    rw [List.mem_singleton.mp hp, Waits, size_add]
    exact ⟨Nat.lt_succ_self _, fun i hi => Nat.lt_succ_of_lt (hn i hi)⟩
  obtain ⟨hPg, hle⟩ := k.attach hP hw
  rw [size_add] at hle
  rw [construct_eq]
  exact ⟨hPg, Nat.le_of_succ_le hle⟩

theorem realize (k : Kept P) (hP : P f) (ofClass : NodeClass) {b : Blueprint}
    (hn : ∀ i ∈ named b, i < f.size) :
    P (f.realize ofClass none b).1 ∧ f.size ≤ (f.realize ofClass none b).1.size := by
  cases b with
  | existing i => exact ⟨hP, Nat.le_refl _⟩
  | broken e => exact ⟨hP, Nat.le_refl _⟩
  | fresh fields items => exact k.construct (k.add fields ofClass hP) (by rwa [named] at hn)

theorem realizeAll (k : Kept P) (hP : P f) (ofClass : NodeClass) {items : List Blueprint}
    (hn : ∀ b ∈ items, ∀ i ∈ named b, i < f.size) (done : List NodeId) :
    P (f.realizeAll ofClass items done).1 := by
  induction items generalizing f done with
  | nil => exact hP
  | cons b rest ih =>
    have hrest : ∀ b ∈ rest, ∀ i ∈ named b, i < f.size := fun b hb =>
      hn b (List.mem_cons_of_mem _ hb)
    by_cases hb : ∃ i, b = .existing i
    · obtain ⟨i, rfl⟩ := hb
      exact ih hP hrest (i :: done)
    · rw [realizeAll_cons fun i h => hb ⟨i, h⟩]
      obtain ⟨hPg, hle⟩ := k.realize hP ofClass (hn b List.mem_cons_self)
      split
      · rename_i g e hrun
        rw [hrun] at hPg
        exact hPg
      · rename_i g i hrun
        rw [hrun] at hPg hle
        exact ih hPg (fun b hb i hi => Nat.lt_of_lt_of_le (hrest b hb i hi) hle) (i :: done)

/-! ### Splices and detachments -/

theorem exchange (k : Kept P) (hP : P f) {start stop : Nat} {items : List NodeId}
    (hle : start ≤ stop) (hhost : host < f.size) (hitems : ∀ i ∈ items, i < f.size)
    (nodup : items.Nodup) (clear : ∀ i ∈ items, ¬ f.Above i host) :
    P (f.exchange host start stop items).1 :=
  k.rehang hP hhost (exchange_rehung (k.wellFormed hP) hle hhost hitems)
    (wellFormed_exchange (k.wellFormed hP) hle hhost hitems nodup clear)

theorem spliceEnd (k : Kept P) (hP : P g) {start count insertions : Value}
    (hhost : host < g.size) (hle : f.size ≤ g.size) (hn : f.NamesExisting host insertions)
    (x : SpliceEnd f host start count insertions g) :
    P (f.splice host start count insertions).1 := by
  cases x with
  | failed e h =>
    rw [h]
    exact hP
  | exchanged x =>
    rw [x.eq]
    exact k.exchange hP x.le hhost (x.nodes_lt hn hle) x.nodup x.clear

theorem splice (k : Kept P) (hP : P f) (hhost : host < f.size) (start count : Value)
    {insertions : Value} (hn : f.NamesExisting host insertions) :
    P (f.splice host start count insertions).1 := by
  cases hcount : count.number? with
  | none =>
    simp only [Forest.splice, hcount]
    exact hP
  | some amount =>
    cases hneg : amount.isNegative with
    | true =>
      simp only [Forest.splice, hcount, hneg, if_true]
      exact hP
    | false =>
      obtain ⟨g, u, x⟩ := realizeAll_spec (Underway.start (k.wellFormed hP) (by simp))
        (f.node host).ofClass hn []
      have hPg := k.realizeAll hP (f.node host).ofClass hn []
      cases hstop : Find.stop? []
        ((ofInsertions (f.node host).name insertions).flatMap Blueprint.finds) with
      | some d =>
        have hrun := x.stopped d hstop
        rw [hrun] at hPg
        refine k.spliceEnd hPg (Nat.lt_of_lt_of_le hhost x.le) x.le hn
          (.failed (g.faultOf d) ?_)
        simp [Forest.splice, hcount, hneg, hrun]
      | none =>
        obtain ⟨nodes, hrun, hmade⟩ := x.built hstop
        rw [List.reverse_nil, List.nil_append] at hrun
        rw [hrun] at hPg
        have hhostg := Nat.lt_of_lt_of_le hhost x.le
        exact k.spliceEnd hPg hhostg x.le hn
          (spliceEnd_of_built (k.wellFormed hPg) hhostg start hcount hneg hrun hmade)

theorem detach (k : Kept P) (hP : P f) {i : NodeId} (h : f.detach i = .ok g) : P g := by
  unfold Forest.detach at h
  split at h
  · cases h
    unfold cut
    split
    · rename_i p n hp _
      exact k.exchange hP (Nat.le_succ n) ((k.wellFormed hP).parent_lt hp) (by simp) List.nodup_nil
        (by simp)
    · exact hP
  · cases h

/-! ### Plugins -/

theorem keptByPlugins (k : Kept P) : KeptByPlugins P where
  shape hs hP := k.shape hP hs
  detach hP h := k.detach hP h

end Kept

theorem kept_wellFormed : Kept WellFormed where
  wellFormed wf := wf
  shape wf s := s.wellFormed wf
  add _ _ wf := wf.add rfl (by simp)
  addUnder fields wf hhost := wf.addUnder hhost fields
  rehang _ _ _ wf := wf

end Forest
end SvgTree
