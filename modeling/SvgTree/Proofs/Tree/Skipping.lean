/-
A construction over a list of children that it empties.

The list is read place by place, and a child that is adopted leaves it.  The child behind it
then stands at the place that was read already, so every other child is passed over and stays
where it was.  What the construction comes to is what it comes to over the children that are not
passed over.
-/
import SvgTree.Proofs.Tree.Attach

namespace SvgTree

/-- The first, the third, the fifth, and so on. -/
def everyOther {α : Type} : List α → List α
  | [] => []
  | [a] => [a]
  | a :: _ :: rest => a :: everyOther rest

theorem everyOther_sublist {α : Type} (l : List α) : (everyOther l).Sublist l := by
  induction l using everyOther.induct with
  | case1 => exact .slnil
  | case2 a => exact .refl [a]
  | case3 a b rest ih => exact .cons_cons a (.cons b ih)

theorem everyOther_eq_self_iff {α : Type} {l : List α} : everyOther l = l ↔ l.length ≤ 1 := by
  match l with
  | [] => simp [everyOther]
  | [a] => simp [everyOther]
  | a :: b :: rest =>
    have hshort := (everyOther_sublist rest).length_le
    constructor
    · intro h
      have hlen := congrArg List.length h
      simp only [everyOther, List.length_cons] at hlen
      omega
    · intro h
      simp only [List.length_cons] at h
      omega

namespace Forest

variable {f g : Forest} {host source : NodeId} {before rest : List NodeId}

/-! ### Existing nodes as items -/

theorem waiting_of_attachItems {l : List NodeId} {waiting left : List Pending}
    (h : f.attachItems host (l.map .existing) waiting = (g, .ok left)) : left = waiting := by
  induction l generalizing f with
  | nil =>
    cases h
    rfl
  | cons i l ih =>
    rw [List.map_cons, attachItems] at h
    cases ha : f.adopt host i with
    | error e =>
      rw [ha] at h
      cases h
    | ok k =>
      rw [ha] at h
      exact ih h

theorem attach_existing (f : Forest) (host : NodeId) (l : List NodeId) :
    f.attach [⟨host, l.map .existing⟩] =
      let run := f.attachItems host (l.map .existing) []
      (run.1, run.2.map fun _ => ()) := by
  rw [attach]
  split
  · rename_i g e hrun
    rw [hrun]
    rfl
  · rename_i g left hrun
    rw [hrun, waiting_of_attachItems hrun, attach]
    rfl

/-! ### Reading on -/

theorem children_of_adopted {c : NodeId} (wf : f.WellFormed) (hne : source ≠ host)
    (hlist : f.children source = before ++ c :: rest)
    (r : Rehung f g host (without (f.children host) [c] ++ [c])) :
    g.children source = before ++ rest := by
  have hc : c ∈ f.children source := by simp [hlist]
  have hgone : ∀ i ∈ f.children source,
      i ∈ without (f.children host) [c] ++ [c] ↔ i ∈ [c] := by
    intro i hi
    have hnot : i ∉ f.children host := fun h => hne (wf.eq_of_mem_children hi h)
    simp [hnot]
  have hnodup := wf.once source
  rw [hlist, List.nodup_middle, List.nodup_cons, List.mem_append, not_or] at hnodup
  obtain ⟨⟨hbefore, hrest⟩, -⟩ := hnodup
  have hself : without [c] [c] = [] := by simp [without]
  have hkeep {l : List NodeId} (hl : c ∉ l) : without l [c] = l :=
    without_eq_self fun i hi hmem => hl (List.mem_singleton.mp hmem ▸ hi)
  rw [r.children_other source hne, without_congr hgone, hlist, ← List.singleton_append, without,
    List.filter_append, List.filter_append]
  show without before [c] ++ (without [c] [c] ++ without rest [c]) = _
  rw [hself, hkeep hbefore, hkeep hrest, List.nil_append]

theorem adoptAlong_of_length_le (f : Forest) (host : NodeId) {source : NodeId} (fuel : Nat)
    {place : Nat} (h : (f.children source).length ≤ place) :
    f.adoptAlong host source fuel place = (f, .ok ()) := by
  cases fuel with
  | zero => rfl
  | succ fuel => rw [adoptAlong, List.getElem?_eq_none h]

/-- From a place on, every other child that is left is adopted. -/
theorem adoptAlong_eq (wf : f.WellFormed) (hhost : host < f.size) (hne : source ≠ host)
    (hlist : f.children source = before ++ rest) {fuel : Nat} (hfuel : rest.length ≤ fuel) :
    f.adoptAlong host source fuel before.length =
      let run := f.attachItems host ((everyOther rest).map .existing) []
      (run.1, run.2.map fun _ => ()) := by
  induction fuel generalizing f before rest with
  | zero =>
    rw [List.length_eq_zero_iff.mp (Nat.le_zero.mp hfuel)]
    rfl
  | succ fuel ih =>
    cases rest with
    | nil => exact adoptAlong_of_length_le f host _ (by simp [hlist])
    | cons c rest =>
      have hread : (f.children source)[before.length]? = some c := by simp [hlist]
      have hc : c < f.size := wf.child_lt (p := source) (by simp [hlist])
      have hitems : everyOther (c :: rest) = c :: everyOther rest.tail := by
        cases rest <;> rfl
      rw [adoptAlong, hread, hitems, List.map_cons, attachItems]
      rcases adopt_cases wf hhost hc with ⟨-, hrun⟩ | ⟨g, hrun, -, wg, r⟩
      · simp only [hrun]
        rfl
      · simp only [hrun]
        have hleft := children_of_adopted wf hne hlist r
        rw [List.length_cons] at hfuel
        cases rest with
        | nil => exact adoptAlong_of_length_le g host _ (by simp [hleft])
        | cons d rest =>
          have hplace : before.length + 1 = (before ++ [d]).length := by simp
          rw [hplace]
          refine ih wg (r.size_eq ▸ hhost) ?_ ?_
          · rw [hleft, List.append_assoc, List.singleton_append]
            rfl
          · rw [List.length_cons] at hfuel
            exact Nat.le_of_succ_le (Nat.le_of_succ_le_succ hfuel)

theorem adoptAlong_children (wf : f.WellFormed) (hhost : host < f.size) (hne : source ≠ host) :
    f.adoptAlong host source (f.children source).length 0 =
      let run := f.attachItems host ((everyOther (f.children source)).map .existing) []
      (run.1, run.2.map fun _ => ()) := by
  rw [← adoptAlong_eq wf hhost hne (List.nil_append _).symm (Nat.le_refl _), List.length_nil]

/-- A construction over the children of a node passes over every other one. -/
theorem createOver_eq (wf : f.WellFormed) {parent : Option NodeId} (hp : ∀ p ∈ parent, p < f.size)
    (ofClass : NodeClass) (kind name value attributes : Value) {m : Attributes}
    (hm : Attributes.ofInput attributes = .ok m) (hsource : source < f.size) :
    f.createOver ofClass parent kind name value attributes source =
      f.construct ofClass parent { kind, name, value, attributes := m }
        ((everyOther (f.children source)).map .existing) := by
  have hne : source ≠ f.size := Nat.ne_of_lt hsource
  have hlist : (f.add ⟨{ kind, name, value, attributes := m }, ofClass, parent, []⟩).1.children
      source = f.children source := by
    rw [children_add, if_neg hne]
  have wf' : (f.add ⟨{ kind, name, value, attributes := m }, ofClass, parent, []⟩).1.WellFormed :=
    wf.add rfl hp
  have hrun := adoptAlong_children wf' (lt_size_add ..) hne
  rw [hlist] at hrun
  rw [construct_eq, attach_existing, createOver, hm]
  show (((f.add _).1.adoptAlong f.size source ((f.add _).1.children source).length 0).1,
    ((f.add _).1.adoptAlong f.size source ((f.add _).1.children source).length 0).2.map _) = _
  rw [hlist, hrun]
  cases ((f.add ⟨{ kind, name, value, attributes := m }, ofClass, parent, []⟩).1.attachItems f.size
    ((everyOther (f.children source)).map .existing) []).2 <;> rfl

end Forest
end SvgTree
