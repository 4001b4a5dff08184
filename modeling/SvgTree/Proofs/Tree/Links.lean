/-
The two views of a tree.

A link to a parent is loose where the parent does not hold the node.  Only the making of a
node with a given parent leaves one, and no call makes another.  Climbs follow loose links
and walks do not, so the two agree on two nodes just when no loose link lies between them.
-/
import SvgTree.Proofs.Tree.Order

namespace SvgTree
namespace Forest

/-- The parent of `i` is `p`, which does not hold it. -/
def Loose (f : Forest) (i p : NodeId) : Prop := f.parent? i = some p ∧ i ∉ f.children p

instance (f : Forest) (i p : NodeId) : Decidable (f.Loose i p) :=
  inferInstanceAs (Decidable (_ ∧ _))

def LooseWithin (given : List (NodeId × NodeId)) (f : Forest) : Prop :=
  ∀ i p, f.Loose i p → (i, p) ∈ given

variable {f g : Forest} {i p a n : NodeId} {given : List (NodeId × NodeId)} {l : List NodeId}

/-! ### What steps do to links -/

theorem SameShape.loose_iff (s : SameShape f g) : g.Loose i p ↔ f.Loose i p := by
  rw [Loose, Loose, s.parent_eq, s.children_eq]

theorem Rehung.loose {host : NodeId} {now : List NodeId} (r : Rehung f g host now)
    (h : g.Loose i p) : f.Loose i p := by
  obtain ⟨hp, hc⟩ := h
  have hnow : i ∉ now := by
    intro hi
    rw [r.parent_now i hi] at hp
    cases hp
    rw [r.children_host] at hc
    exact hc hi
  have hgone : i ∉ f.children host := by
    intro hi
    rw [r.parent_gone i hi hnow] at hp
    cases hp
  rw [r.parent_other i hnow hgone] at hp
  refine ⟨hp, fun hi => ?_⟩
  by_cases hhost : p = host
  · exact hgone (hhost ▸ hi)
  · rw [r.children_other p hhost, mem_without] at hc
    exact hc ⟨hi, hnow⟩

theorem loose_add {m : Node} (h : (f.add m).1.Loose i p) :
    f.Loose i p ∨ (i = f.size ∧ m.parent = some p) := by
  obtain ⟨hp, hc⟩ := h
  rw [parent?_add] at hp
  split at hp
  · exact .inr ⟨‹_›, hp⟩
  · refine .inl ⟨hp, fun hi => hc ?_⟩
    have hps : p ≠ f.size := Nat.ne_of_lt (lt_size_of_mem_children hi)
    rwa [children_add, if_neg hps]

theorem loose_addUnder {host : NodeId} {fields : Fields} (hhost : host < f.size)
    (h : (f.addUnder host fields).1.Loose i p) : f.Loose i p := by
  obtain ⟨hp, hc⟩ := h
  rw [parent?_addUnder hhost] at hp
  rw [children_addUnder hhost] at hc
  by_cases hi : i = f.size
  · rw [if_pos hi] at hp
    cases hp
    rw [if_pos rfl] at hc
    exact absurd (List.mem_append_right _ (hi ▸ List.mem_singleton_self _)) hc
  · rw [if_neg hi] at hp
    refine ⟨hp, fun hmem => hc ?_⟩
    have hps : p ≠ f.size := Nat.ne_of_lt (lt_size_of_mem_children hmem)
    by_cases hph : p = host
    · rw [if_pos hph]
      exact List.mem_append_left _ (hph ▸ hmem)
    · rwa [if_neg hph, if_neg hps]

theorem kept_looseWithin (given : List (NodeId × NodeId)) :
    Kept fun f => f.WellFormed ∧ f.LooseWithin given where
  wellFormed h := h.1
  shape h s := ⟨s.wellFormed h.1, fun i p hl => h.2 i p (s.loose_iff.mp hl)⟩
  add fields ofClass h := by
    refine ⟨h.1.add rfl (by simp), fun i p hl => ?_⟩
    rcases loose_add hl with hl | ⟨-, hp⟩
    · exact h.2 i p hl
    · cases hp
  addUnder fields h hhost := by
    exact ⟨h.1.addUnder hhost fields, fun i p hl => h.2 i p (loose_addUnder hhost hl)⟩
  rehang h _ r wf := ⟨wf, fun i p hl => h.2 i p (r.loose hl)⟩

/-! ### What calls do to links -/

def givenLink (f : Forest) (c : Call) : List (NodeId × NodeId) :=
  ((givenParent? c).map fun p => (f.size, p)).toList

def givenLinks (f : Forest) : List Call → List (NodeId × NodeId)
  | [] => []
  | c :: rest => f.givenLink c ++ (f.after c).givenLinks rest

theorem looseWithin_after (wf : f.WellFormed) (h : f.LooseWithin given) {c : Call}
    (hadmits : f.Admits c) : (f.after c).LooseWithin (given ++ f.givenLink c) := by
  refine ((kept_looseWithin (given ++ f.givenLink c)).after
    ⟨wf, fun i p hl => List.mem_append_left _ (h i p hl)⟩ hadmits ?_).2
  intro q hq hlt fields ofClass
  refine ⟨wf.add rfl fun p hp => Option.some.inj hp ▸ hlt, fun i p hl => ?_⟩
  rcases loose_add hl with hl | ⟨rfl, hp⟩
  · exact List.mem_append_left _ (h i p hl)
  · cases hp
    refine List.mem_append_right _ ?_
    rw [givenLink, hq]
    exact List.mem_singleton_self _

/-- After calls every loose link is one that a call gave. -/
theorem looseWithin_afterAll {calls : List Call} (wf : f.WellFormed) (h : f.LooseWithin given)
    (hadmits : f.AdmitsAll calls) :
    (f.afterAll calls).LooseWithin (given ++ f.givenLinks calls) := by
  induction calls generalizing f given with
  | nil =>
    rw [givenLinks, List.append_nil]
    exact h
  | cons c rest ih =>
    rw [givenLinks, ← List.append_assoc]
    exact ih (wellFormed_after wf hadmits.1) (looseWithin_after wf h hadmits.1) hadmits.2

theorem givenLinks_eq_nil {calls : List Call} (h : ∀ c ∈ calls, givenParent? c = none) :
    f.givenLinks calls = [] := by
  induction calls generalizing f with
  | nil => rfl
  | cons c rest ih =>
    rw [givenLinks, givenLink, h c List.mem_cons_self,
      ih fun c hc => h c (List.mem_cons_of_mem _ hc)]
    rfl

/-! ### Climbs and walks -/

namespace WellFormed

theorem above_self (wf : f.WellFormed) (n : NodeId) : f.Above n n := by
  obtain ⟨l, hl⟩ := wf.grounded n
  exact ⟨l, hl, hl.head_mem⟩

theorem above_iff_of_parent? (wf : f.WellFormed) (hp : f.parent? n = some p) :
    f.Above a n ↔ a = n ∨ f.Above a p := by
  obtain ⟨l, hl⟩ := wf.grounded p
  constructor
  · rintro ⟨k, hk, ha⟩
    rw [hk.unique (.up hp hl)] at ha
    exact (List.mem_cons.mp ha).imp_right fun ha => ⟨l, hl, ha⟩
  · rintro (rfl | ⟨k, hk, ha⟩)
    · exact wf.above_self a
    · exact ⟨n :: k, .up hp hk, List.mem_cons_of_mem _ ha⟩

theorem above_iff_of_top (hp : f.parent? n = none) : f.Above a n ↔ a = n := by
  constructor
  · rintro ⟨k, hk, ha⟩
    rw [hk.unique (.top hp)] at ha
    exact List.mem_singleton.mp ha
  · rintro rfl
    exact ⟨[a], .top hp, List.mem_singleton_self a⟩

/-- A walk goes down from holders to what they hold. -/
theorem mem_walk_iff_held (wf : f.WellFormed) (ha : a < f.size) :
    n ∈ f.walk a ↔ n = a ∨ ∃ p, n ∈ f.children p ∧ p ∈ f.walk a := by
  constructor
  · refine wf.tree_induction (motive := fun a =>
      n ∈ f.walk a → n = a ∨ ∃ p, n ∈ f.children p ∧ p ∈ f.walk a) ?_ ha
    intro i hi ih h
    rw [wf.walk_eq hi, List.mem_cons, List.mem_flatMap] at h
    rcases h with rfl | ⟨c, hc, hn⟩
    · exact .inl rfl
    · rcases ih c hc hn with rfl | ⟨p, hnp, hp⟩
      · exact .inr ⟨i, hc, wf.mem_walk_self hi⟩
      · exact .inr ⟨p, hnp, (wf.walk_child_infix hi hc).subset hp⟩
  · rintro (rfl | ⟨p, hnp, hp⟩)
    · exact wf.mem_walk_self ha
    · exact wf.mem_walk_of_child ha hp hnp

/-- A walk comes to the nodes below it from which no loose link is on the way up.  The
induction is on the climb from the node. -/
theorem mem_walk_iff (wf : f.WellFormed) (ha : a < f.size) (hl : f.Climbs n l) :
    n ∈ f.walk a ↔
      f.Above a n ∧ ∀ i p, f.Loose i p → f.Above i n → ¬ f.Above a p := by
  induction hl with
  | @top n hp =>
    have hfree : ∀ q, n ∉ f.children q := by
      intro q hq
      rw [wf.held hq] at hp
      cases hp
    rw [wf.mem_walk_iff_held ha, above_iff_of_top hp]
    constructor
    · rintro (rfl | ⟨q, hq, -⟩)
      · refine ⟨rfl, fun i p hloose hi => ?_⟩
        rw [(above_iff_of_top hp).mp hi, Loose, hp] at hloose
        cases hloose.1
      · exact absurd hq (hfree q)
    · rintro ⟨rfl, -⟩
      exact .inl rfl
  | @up n q l hp hq ih =>
    have habove {i : NodeId} : f.Above i n ↔ i = n ∨ f.Above i q := wf.above_iff_of_parent? hp
    by_cases han : a = n
    · subst han
      -- Nothing at or above the node has the node above its parent.
      refine iff_of_true (wf.mem_walk_self ha) ⟨wf.above_self a, fun i p hloose hi hap => ?_⟩
      obtain ⟨k, hk, hak⟩ := hap
      obtain ⟨m, hm, hs⟩ := hk.rest_of_mem hak
      obtain ⟨m', hm', him⟩ := hi
      rw [hm'.unique hm] at him
      exact hk.notMem_of_parent? hloose.1 (hs.subset him)
    · rw [wf.mem_walk_iff_held ha, habove]
      constructor
      · rintro (hna | ⟨r, hr, hra⟩)
        · exact absurd hna.symm han
        · have hrq : r = q := Option.some.inj ((wf.held hr).symm.trans hp)
          subst hrq
          obtain ⟨har, hfree⟩ := ih.mp hra
          refine ⟨.inr har, fun i p hloose hi => ?_⟩
          rcases habove.mp hi with rfl | hi
          · rw [Loose, hp] at hloose
            cases hloose.1
            exact absurd hr hloose.2
          · exact hfree i p hloose hi
      · rintro ⟨han' | haq, hfree⟩
        · exact absurd han' han
        · have hheld : n ∈ f.children q := by
            by_contra hnot
            exact hfree n q ⟨hp, hnot⟩ (wf.above_self n) haq
          refine .inr ⟨q, hheld, ih.mpr ⟨haq, fun i p hloose hi => ?_⟩⟩
          exact hfree i p hloose (habove.mpr (.inr hi))

/-- The two views agree everywhere just when no link is loose. -/
theorem views_agree_iff (wf : f.WellFormed) :
    (∀ a n, a < f.size → n < f.size → (f.isAncestor a n = true ↔ n ∈ f.walk a)) ↔
      ∀ i p, ¬ f.Loose i p := by
  constructor
  · rintro hagree i p ⟨hp, hc⟩
    have hplt := wf.parent_lt hp
    have hilt := lt_size_of_parent? hp
    have habove : f.Above p i := (wf.above_iff_of_parent? hp).mpr (.inr (wf.above_self p))
    have hwalk := (hagree p i hplt hilt).mp ((wf.isAncestor_iff hilt).mpr habove)
    rcases (wf.mem_walk_iff_held hplt).mp hwalk with rfl | ⟨q, hq, -⟩
    · exact not_above_of_parent? hp (wf.above_self i)
    · have hqp : q = p := Option.some.inj ((wf.held hq).symm.trans hp)
      exact hc (hqp ▸ hq)
  · intro hnone a n ha hn
    obtain ⟨l, hl⟩ := wf.grounded n
    rw [wf.isAncestor_iff hn, wf.mem_walk_iff ha hl]
    exact ⟨fun h => ⟨h, fun i p hloose => absurd hloose (hnone i p)⟩, fun h => h.1⟩

end WellFormed

/-- After any calls the loose links are among those that were given to new nodes.  A node is
on the walk from another just when that one is its ancestor and no loose link is on the way
up; so the two views agree everywhere just when no link is loose, as is the case where no
call gives a parent. -/
theorem links_of_calls {calls : List Call} (h : Forest.empty.AdmitsAll calls)
    (hf : Forest.empty.afterAll calls = f) :
    (∀ i p, f.Loose i p → (i, p) ∈ Forest.empty.givenLinks calls) ∧
      (∀ a n, a < f.size → n < f.size → (n ∈ f.walk a ↔ f.isAncestor a n = true ∧
        ∀ i p, f.Loose i p → f.isAncestor i n = true → f.isAncestor a p = false)) ∧
      ((∀ a n, a < f.size → n < f.size → (f.isAncestor a n = true ↔ n ∈ f.walk a)) ↔
        ∀ i p, ¬ f.Loose i p) ∧
      ((∀ c ∈ calls, givenParent? c = none) → ∀ i p, ¬ f.Loose i p) := by
  subst hf
  have wf := wellFormed_afterAll .empty h
  have hwithin : (Forest.empty.afterAll calls).LooseWithin (Forest.empty.givenLinks calls) := by
    have hnone : Forest.empty.LooseWithin [] := fun i p hl => by
      have hlt := lt_size_of_parent? hl.1
      exact absurd hlt (Nat.not_lt_zero i)
    simpa using looseWithin_afterAll .empty hnone h
  refine ⟨hwithin, fun a n ha hn => ?_, wf.views_agree_iff, fun hfree i p hl => ?_⟩
  · obtain ⟨l, hl⟩ := wf.grounded n
    rw [wf.mem_walk_iff ha hl, wf.isAncestor_iff hn]
    refine and_congr_right fun _ => forall₂_congr fun i p => forall_congr' fun hloose => ?_
    rw [wf.isAncestor_iff hn, ← Bool.not_eq_true, wf.isAncestor_iff (wf.parent_lt hloose.1)]
  · have hmem := hwithin i p hl
    rw [givenLinks_eq_nil hfree] at hmem
    cases hmem

/-- A new node names `c` for its parent and takes `b`: the link is loose, and so the walk from
`c` does not come to `b`, which stands below it. -/
theorem links_of_tangled :
    Forest.empty.AdmitsAll tangledCalls ∧
      (4, 2) ∈ Forest.empty.givenLinks tangledCalls ∧
      (Forest.empty.afterAll tangledCalls).Loose 4 2 ∧
      (Forest.empty.afterAll tangledCalls).isAncestor 2 3 = true ∧
      3 ∉ (Forest.empty.afterAll tangledCalls).walk 2 := by
  have admits : Forest.empty.AdmitsAll tangledCalls := by decide +kernel
  have loose : (Forest.empty.afterAll tangledCalls).Loose 4 2 := by decide +kernel
  have lower : (Forest.empty.afterAll tangledCalls).isAncestor 4 3 = true := by decide +kernel
  have upper : (Forest.empty.afterAll tangledCalls).isAncestor 2 2 = true := by decide +kernel
  obtain ⟨given, walks, -, -⟩ := links_of_calls admits rfl
  refine ⟨admits, given 4 2 loose, loose, by decide +kernel, fun hwalk => ?_⟩
  have hfree := ((walks 2 3 (by decide +kernel) (by decide +kernel)).mp hwalk).2 4 2 loose lower
  rw [upper] at hfree
  cases hfree

/-- A root over one element, and a new element that names the root for its parent. -/
def disownedCalls : List Call :=
  [.wrap (.dict [(.text "type", .text "root"), (.text "children", .list [
    .dict [(.text "name", .text "g")]])]),
    .create .legacy (some 0) (.text "element") (.text "path") .null .null (.list [])]

/-- The root is the parent of the new element and does not hold it: the element is below the
root on the way up, and not on the way down. -/
theorem views_differ_of_disowned :
    (Forest.empty.afterAll disownedCalls).Reachable ∧
      (Forest.empty.afterAll disownedCalls).parent? 2 = some 0 ∧
      (Forest.empty.afterAll disownedCalls).children 0 = [1] ∧
      (Forest.empty.afterAll disownedCalls).isAncestor 0 2 = true ∧
      2 ∉ (Forest.empty.afterAll disownedCalls).walk 0 := by
  refine ⟨⟨disownedCalls, by decide +kernel, rfl⟩, ?_⟩
  decide +kernel

end Forest
end SvgTree
