/-
What building does to the nodes that were there before.

`Grown f g took` compares the two ends of a building: the old nodes keep what they hold,
those in `took` now stand under new nodes, and have left the lists of the old ones.  Between
the ends `Underway` also keeps the shape of the forest, and says where every new node
climbs to: through new nodes to the given parent and on from there.  That is why building
refuses exactly the nodes that stand above the given parent.
-/
import SvgTree.Proofs.Tree.Finds
import SvgTree.Proofs.Tree.Rehang

namespace SvgTree
namespace Forest

/-- `g` is `f` with new nodes, under which the nodes of `took` now stand. -/
structure Grown (f g : Forest) (took : List NodeId) : Prop where
  size_le : f.size ≤ g.size
  holds_eq : ∀ {i : NodeId}, i < f.size → g.holds i = f.holds i
  children_eq : ∀ {i : NodeId}, i < f.size → g.children i = without (f.children i) took
  parent_took : ∀ {i : NodeId}, i < f.size → i ∈ took → ∃ p, f.size ≤ p ∧ g.parent? i = some p
  parent_eq : ∀ {i : NodeId}, i < f.size → i ∉ took → g.parent? i = f.parent? i

/-- A building between its start `f₀` and its end.  `barred` is the climb from the parent
that was given, or empty. -/
structure Underway (f₀ f : Forest) (barred took : List NodeId) : Prop
    extends Grown f₀ f took where
  wellFormed : f.WellFormed
  barred_lt : ∀ i ∈ barred, i < f₀.size
  climbs : ∀ {i : NodeId}, f₀.size ≤ i → i < f.size →
    ∃ l, f.Climbs i (l ++ barred) ∧ ∀ j ∈ l, f₀.size ≤ j

theorem Grown.refl (f : Forest) : Grown f f [] where
  size_le := Nat.le_refl _
  holds_eq _ := rfl
  children_eq _ := (without_nil _).symm
  parent_took _ h := absurd h List.not_mem_nil
  parent_eq _ _ := rfl

/-! ### A new node -/

/-- A new node keeps the shape: nothing has it as parent yet. -/
theorem WellFormed.add {f : Forest} (wf : f.WellFormed) {n : Node} (hc : n.children = [])
    (hp : ∀ p, n.parent = some p → p < f.size) : (f.add n).1.WellFormed := by
  have climbs_old {i : NodeId} {l : List NodeId} (hi : i ≠ f.size) (h : f.Climbs i l) :
      (f.add n).1.Climbs i l := by
    induction h with
    | top h => exact .top (by rw [parent?_add, if_neg hi, h])
    | up h _ ih =>
      exact .up (by rw [parent?_add, if_neg hi, h]) (ih (Nat.ne_of_lt (wf.parent_lt h)))
  refine ⟨?_, ?_, ?_, ?_⟩
  · intro i p h
    rw [size_add]
    rw [parent?_add] at h
    split at h
    · exact Nat.lt_succ_of_lt (hp p h)
    · exact Nat.lt_succ_of_lt (wf.parent_lt h)
  · intro p c h
    rw [children_add] at h
    split at h
    · rw [hc] at h; exact absurd h List.not_mem_nil
    · rw [parent?_add, if_neg (Nat.ne_of_lt (wf.child_lt h))]
      exact wf.held h
  · intro p
    rw [children_add]
    split
    · rw [hc]; exact List.nodup_nil
    · exact wf.once p
  · intro i
    by_cases hi : i = f.size
    · subst hi
      cases hn : n.parent with
      | none => exact ⟨_, .top (by rw [parent?_add, if_pos rfl, hn])⟩
      | some p =>
        obtain ⟨l, hl⟩ := wf.grounded p
        exact ⟨_, .up (by rw [parent?_add, if_pos rfl, hn])
          (climbs_old (Nat.ne_of_lt (hp p hn)) hl)⟩
    · obtain ⟨l, hl⟩ := wf.grounded i
      exact ⟨l, climbs_old hi hl⟩

theorem WellFormed.push {f : Forest} (wf : f.WellFormed) {host c : NodeId}
    (hp : f.parent? c = some host) (hc : c ∉ f.children host) :
    (f.setChildren host (f.children host ++ [c])).WellFormed := by
  have hhost := wf.parent_lt hp
  refine ⟨?_, ?_, ?_, ?_⟩
  · intro i p h
    rw [parent?_setChildren] at h
    rw [size_setChildren]
    exact wf.parent_lt h
  · intro p d h
    rw [children_setChildren] at h
    rw [parent?_setChildren]
    split at h
    · rename_i hph
      rw [← hph.1]
      rcases List.mem_append.mp h with h | h
      · exact wf.held h
      · rw [List.mem_singleton.mp h]; exact hp
    · exact wf.held h
  · intro p
    rw [children_setChildren]
    split
    · rw [List.nodup_append]
      refine ⟨wf.once host, List.nodup_singleton _, fun a ha b hb hab => hc ?_⟩
      rw [← List.mem_singleton.mp hb, ← hab]
      exact ha
    · exact wf.once p
  · intro i
    obtain ⟨l, hl⟩ := wf.grounded i
    exact ⟨l, hl.congr fun j _ => parent?_setChildren ..⟩

theorem addUnder_eq {f : Forest} {host : NodeId} (hhost : host < f.size) (fields : Fields) :
    f.addUnder host fields =
      (((f.add ⟨fields, (f.node host).ofClass, some host, []⟩).1).setChildren host
        (f.children host ++ [f.size]), f.size) := by
  unfold addUnder
  show ((f.add _).1.modify host _, f.size) = _
  rw [modify_push_eq_setChildren, children_add, if_neg (Nat.ne_of_lt hhost)]
  rfl

theorem size_addUnder {f : Forest} {host : NodeId} (hhost : host < f.size) (fields : Fields) :
    (f.addUnder host fields).1.size = f.size + 1 := by
  rw [addUnder_eq hhost, size_setChildren, size_add]

theorem lt_size_addUnder {f : Forest} {host : NodeId} (hhost : host < f.size) (fields : Fields) :
    f.size < (f.addUnder host fields).1.size := by
  rw [size_addUnder hhost]
  exact Nat.lt_succ_self _

theorem addUnder_snd {f : Forest} {host : NodeId} (hhost : host < f.size) (fields : Fields) :
    (f.addUnder host fields).2 = f.size := by
  rw [addUnder_eq hhost]

theorem parent?_addUnder {f : Forest} {host : NodeId} (hhost : host < f.size) (fields : Fields)
    (j : NodeId) :
    (f.addUnder host fields).1.parent? j = if j = f.size then some host else f.parent? j := by
  rw [addUnder_eq hhost, parent?_setChildren, parent?_add]

theorem children_addUnder {f : Forest} {host : NodeId} (hhost : host < f.size) (fields : Fields)
    (j : NodeId) :
    (f.addUnder host fields).1.children j =
      if j = host then f.children host ++ [f.size]
      else if j = f.size then [] else f.children j := by
  rw [addUnder_eq hhost, children_setChildren, size_add, children_add]
  by_cases hj : j = host
  · rw [if_pos ⟨hj.symm, Nat.lt_succ_of_lt (hj ▸ hhost)⟩, if_pos hj]
  · rw [if_neg fun h => hj h.1.symm, if_neg hj]

theorem holds_addUnder {f : Forest} {host : NodeId} (hhost : host < f.size) (fields : Fields)
    (j : NodeId) :
    (f.addUnder host fields).1.holds j =
      if j = f.size then some (fields, (f.node host).ofClass) else f.holds j := by
  rw [addUnder_eq hhost, holds_setChildren, holds_add]

theorem WellFormed.addUnder {f : Forest} (wf : f.WellFormed) {host : NodeId}
    (hhost : host < f.size) (fields : Fields) : (f.addUnder host fields).1.WellFormed := by
  rw [addUnder_eq hhost]
  have hch : (f.add ⟨fields, (f.node host).ofClass, some host, []⟩).1.children host =
      f.children host := by
    rw [children_add, if_neg (Nat.ne_of_lt hhost)]
  have wf' := wf.add (n := ⟨fields, (f.node host).ofClass, some host, []⟩) rfl
    fun p hp => Option.some.inj hp ▸ hhost
  have hpush := wf'.push (c := f.size) (by rw [parent?_add, if_pos rfl])
    (by rw [hch]; exact fun h => Nat.lt_irrefl _ (wf.child_lt h))
  rwa [hch] at hpush

namespace Underway

variable {f₀ f g : Forest} {barred took : List NodeId}

theorem start (wf : f₀.WellFormed) (hb : ∀ i ∈ barred, i < f₀.size) :
    Underway f₀ f₀ barred [] where
  toGrown := Grown.refl f₀
  wellFormed := wf
  barred_lt := hb
  climbs h h' := absurd h' (Nat.not_lt.mpr h)

/-- An old node stands above a new one just when it is barred. -/
theorem above_iff (u : Underway f₀ f barred took) {i host : NodeId} (hi : i < f₀.size)
    (hnew : f₀.size ≤ host) (hhost : host < f.size) : f.Above i host ↔ i ∈ barred := by
  obtain ⟨l, hl, hold⟩ := u.climbs hnew hhost
  constructor
  · rintro ⟨k, hk, hik⟩
    rw [hk.unique hl, List.mem_append] at hik
    exact hik.resolve_left fun h => absurd hi (Nat.not_lt.mpr (hold i h))
  · exact fun h => ⟨_, hl, List.mem_append_right _ h⟩

theorem add (u : Underway f₀ f barred took) {n : Node} (hc : n.children = [])
    (hn : (n.parent = none ∧ barred = []) ∨ ∃ q l, n.parent = some q ∧ q < f.size ∧
      f.Climbs q (l ++ barred) ∧ ∀ j ∈ l, f₀.size ≤ j) :
    Underway f₀ (f.add n).1 barred took := by
  have hp : ∀ p, n.parent = some p → p < f.size := by
    intro p h
    rcases hn with ⟨h', -⟩ | ⟨q, l, h', hq, -⟩
    · rw [h] at h'; exact absurd h' (by simp)
    · rw [h] at h'; cases h'; exact hq
  have hold {i : NodeId} (hi : i < f.size) : i ≠ f.size := Nat.ne_of_lt hi
  have hlt {i : NodeId} (hi : i < f₀.size) : i < f.size := Nat.lt_of_lt_of_le hi u.size_le
  have climbs_old {i : NodeId} {l : List NodeId} (hi : i < f.size) (h : f.Climbs i l) :
      (f.add n).1.Climbs i l :=
    h.congr fun j hj => by
      rw [parent?_add, if_neg (hold (u.wellFormed.lt_size_of_climbs hi h hj))]
  refine ⟨⟨?_, ?_, ?_, ?_, ?_⟩, u.wellFormed.add hc hp, u.barred_lt, ?_⟩
  · rw [size_add]; exact Nat.le_succ_of_le u.size_le
  · intro i hi
    rw [holds_add, if_neg (hold (hlt hi)), u.holds_eq hi]
  · intro i hi
    rw [children_add, if_neg (hold (hlt hi)), u.children_eq hi]
  · intro i hi ht
    rw [parent?_add, if_neg (hold (hlt hi))]
    exact u.parent_took hi ht
  · intro i hi ht
    rw [parent?_add, if_neg (hold (hlt hi)), u.parent_eq hi ht]
  · intro i hi hi'
    rw [size_add] at hi'
    rcases Nat.lt_or_ge i f.size with hlt | hge
    · obtain ⟨l, hl, hnew⟩ := u.climbs hi hlt
      exact ⟨l, climbs_old hlt hl, hnew⟩
    · have hsz : i = f.size := Nat.le_antisymm (Nat.le_of_lt_succ hi') hge
      subst hsz
      rcases hn with ⟨h, hb⟩ | ⟨q, l, h, hq, hl, hnew⟩
      · refine ⟨[f.size], ?_, by simpa using u.size_le⟩
        rw [hb]
        exact .top (by rw [parent?_add, if_pos rfl, h])
      · refine ⟨f.size :: l, .up (by rw [parent?_add, if_pos rfl, h]) (climbs_old hq hl), ?_⟩
        intro j hj
        rcases List.mem_cons.mp hj with rfl | hj
        · exact u.size_le
        · exact hnew j hj

theorem push (u : Underway f₀ f barred took) {host c : NodeId} (hnew : f₀.size ≤ host)
    (hp : f.parent? c = some host) (hc : c ∉ f.children host) :
    Underway f₀ (f.setChildren host (f.children host ++ [c])) barred took := by
  refine ⟨⟨?_, ?_, ?_, ?_, ?_⟩, u.wellFormed.push hp hc, u.barred_lt, ?_⟩
  · rw [size_setChildren]; exact u.size_le
  · intro i hi
    rw [holds_setChildren, u.holds_eq hi]
  · intro i hi
    have hih : host ≠ i := fun h => absurd hi (Nat.not_lt.mpr (h ▸ hnew))
    rw [children_setChildren, if_neg (fun h => hih h.1), u.children_eq hi]
  · intro i hi ht
    rw [parent?_setChildren]
    exact u.parent_took hi ht
  · intro i hi ht
    rw [parent?_setChildren, u.parent_eq hi ht]
  · intro i hi hi'
    rw [size_setChildren] at hi'
    obtain ⟨l, hl, hnews⟩ := u.climbs hi hi'
    exact ⟨l, hl.congr fun j _ => parent?_setChildren .., hnews⟩

theorem addUnder (u : Underway f₀ f barred took) {host : NodeId} (hnew : f₀.size ≤ host)
    (hhost : host < f.size) (fields : Fields) :
    Underway f₀ (f.addUnder host fields).1 barred took := by
  rw [addUnder_eq hhost]
  obtain ⟨l, hl, hnews⟩ := u.climbs hnew hhost
  have u' := u.add (n := ⟨fields, (f.node host).ofClass, some host, []⟩) rfl
    (.inr ⟨host, l, rfl, hhost, hl, hnews⟩)
  have hch : (f.add ⟨fields, (f.node host).ofClass, some host, []⟩).1.children host =
      f.children host := by
    rw [children_add, if_neg (Nat.ne_of_lt hhost)]
  have hpush := u'.push (c := f.size) hnew (by rw [parent?_add, if_pos rfl])
    (by rw [hch]; exact fun h => Nat.lt_irrefl _ (u.wellFormed.child_lt h))
  rwa [hch] at hpush

theorem take (u : Underway f₀ f barred took) {host child : NodeId} (hnew : f₀.size ≤ host)
    (hchild : child < f₀.size) (hbar : child ∉ barred) (wf : g.WellFormed)
    (r : Rehung f g host (without (f.children host) [child] ++ [child])) :
    Underway f₀ g barred (took ++ [child]) := by
  have hmem {i : NodeId} (hi : i ∈ f.children host) (hic : i ≠ child) :
      i ∈ without (f.children host) [child] ++ [child] :=
    List.mem_append_left _ (mem_without.mpr ⟨hi, fun h => hic (List.mem_singleton.mp h)⟩)
  -- Only the child gets another parent.
  have hpar {i : NodeId} (hic : i ≠ child) : g.parent? i = f.parent? i := by
    by_cases hi : i ∈ f.children host
    · rw [r.parent_now i (hmem hi hic), u.wellFormed.held hi]
    · refine r.parent_other i (fun h => ?_) hi
      rcases List.mem_append.mp h with h | h
      · exact hi (mem_without.mp h).1
      · exact hic (List.mem_singleton.mp h)
  have hchildPar : g.parent? child = some host :=
    r.parent_now child (List.mem_append_right _ (List.mem_singleton_self _))
  refine ⟨⟨?_, ?_, ?_, ?_, ?_⟩, wf, u.barred_lt, ?_⟩
  · rw [r.size_eq]; exact u.size_le
  · intro i hi
    rw [r.holds_eq, u.holds_eq hi]
  · intro i hi
    have hih : i ≠ host := fun h => absurd hi (Nat.not_lt.mpr (h ▸ hnew))
    rw [r.children_other i hih, ← without_without (f₀.children i), ← u.children_eq hi]
    refine without_congr fun c hc => ?_
    have hnot : c ∉ f.children host := fun h => hih (u.wellFormed.eq_of_mem_children hc h)
    simp [hnot]
  · intro i hi ht
    by_cases hic : i = child
    · exact ⟨host, hnew, hic ▸ hchildPar⟩
    · rw [hpar hic]
      refine u.parent_took hi ?_
      exact (List.mem_append.mp ht).resolve_right fun h => hic (List.mem_singleton.mp h)
  · intro i hi ht
    have hic : i ≠ child := fun h => ht (by simp [h])
    rw [hpar hic]
    exact u.parent_eq hi fun h => ht (List.mem_append_left _ h)
  · intro i hi hi'
    rw [r.size_eq] at hi'
    obtain ⟨l, hl, hnews⟩ := u.climbs hi hi'
    refine ⟨l, hl.congr fun j hj => hpar fun h => ?_, hnews⟩
    rcases List.mem_append.mp hj with hj | hj
    · exact absurd hchild (Nat.not_lt.mpr (h ▸ hnews j hj))
    · exact hbar (h ▸ hj)

end Underway
end Forest
end SvgTree
