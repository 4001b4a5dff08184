/-
The one kind of edit that moves nodes.

An adoption and an exchange of children do the same thing to a forest: one node gets a new
list of children, what is on that list leaves every other list, and what fell off it has no
parent any more.  `Rehung` says so for the views, and a rehung forest is well formed again
as long as nothing on the list stands above the node that gets it.
-/
import SvgTree.Proofs.Tree.Lineage

namespace SvgTree

/-- The nodes of a list that are not among `items`, in order. -/
def without (l items : List NodeId) : List NodeId := l.filter fun i => !items.contains i

@[simp] theorem mem_without {l items : List NodeId} {i : NodeId} :
    i ∈ without l items ↔ i ∈ l ∧ i ∉ items := by
  simp [without]

@[simp] theorem without_nil (l : List NodeId) : without l [] = l := by
  simp [without]

theorem without_sublist (l items : List NodeId) : (without l items).Sublist l :=
  List.filter_sublist

theorem without_eq_self {l items : List NodeId} (h : ∀ i ∈ l, i ∉ items) :
    without l items = l :=
  List.filter_eq_self.mpr fun i hi => by simp [h i hi]

theorem without_congr {l items others : List NodeId}
    (h : ∀ i ∈ l, i ∈ items ↔ i ∈ others) : without l items = without l others :=
  List.filter_congr fun i hi => by simp [h i hi]

theorem without_without (l items others : List NodeId) :
    without (without l items) others = without l (items ++ others) := by
  unfold without
  rw [List.filter_filter]
  refine List.filter_congr fun i _ => ?_
  rw [List.contains_append, Bool.not_or, Bool.and_comm]

namespace Forest

/-- `g` is `f` with `now` for the children of `host`, taken from wherever they were. -/
structure Rehung (f g : Forest) (host : NodeId) (now : List NodeId) : Prop where
  size_eq : g.size = f.size
  holds_eq : ∀ i, g.holds i = f.holds i
  children_host : g.children host = now
  children_other : ∀ q, q ≠ host → g.children q = without (f.children q) now
  parent_now : ∀ i ∈ now, g.parent? i = some host
  parent_gone : ∀ i ∈ f.children host, i ∉ now → g.parent? i = none
  parent_other : ∀ i, i ∉ now → i ∉ f.children host → g.parent? i = f.parent? i

namespace Rehung

variable {f g : Forest} {host : NodeId} {now : List NodeId}

theorem parent_cases (r : Rehung f g host now) (i : NodeId) :
    g.parent? i = f.parent? i ∨ g.parent? i = none ∨ g.parent? i = some host := by
  by_cases hn : i ∈ now
  · exact .inr (.inr (r.parent_now i hn))
  · by_cases hc : i ∈ f.children host
    · exact .inr (.inl (r.parent_gone i hc hn))
    · exact .inl (r.parent_other i hn hc)

theorem wellFormed (r : Rehung f g host now) (wf : f.WellFormed) (hhost : host < f.size)
    (nodup : now.Nodup) (clear : ∀ i ∈ now, ¬ f.Above i host) : g.WellFormed where
  parent_lt := by
    intro i p hp
    rw [r.size_eq]
    rcases r.parent_cases i with h | h | h
    · exact wf.parent_lt (h.symm.trans hp)
    · rw [h] at hp; exact absurd hp (by simp)
    · rw [h] at hp; cases hp; exact hhost
  held := by
    intro p c hc
    by_cases hp : p = host
    · subst hp
      rw [r.children_host] at hc
      exact r.parent_now c hc
    · rw [r.children_other p hp, mem_without] at hc
      have hnot : c ∉ f.children host := fun h => hp (wf.eq_of_mem_children hc.1 h)
      rw [r.parent_other c hc.2 hnot]
      exact wf.held hc.1
  once := by
    intro p
    by_cases hp : p = host
    · subst hp; rw [r.children_host]; exact nodup
    · rw [r.children_other p hp]
      exact (wf.once p).sublist (without_sublist _ _)
  grounded := by
    -- Nothing on the climb from `host` is on the new list, so parents are only lost there.
    have hhost' : ∃ k, g.Climbs host k := by
      obtain ⟨l, hl⟩ := wf.grounded host
      refine hl.of_cut fun j hj => ?_
      have hn : j ∉ now := fun h => clear j h ⟨l, hl, hj⟩
      by_cases hc : j ∈ f.children host
      · exact .inr (r.parent_gone j hc hn)
      · exact .inl (r.parent_other j hn hc)
    intro i
    obtain ⟨l, hl⟩ := wf.grounded i
    exact hl.of_rehung hhost' r.parent_cases

end Rehung

/-! ### Leaving a parent -/

theorem leaveParent_views (f : Forest) (i : NodeId) :
    (f.leaveParent i).size = f.size ∧ (∀ j, (f.leaveParent i).parent? j = f.parent? j) ∧
      ∀ j, (f.leaveParent i).holds j = f.holds j := by
  unfold leaveParent
  cases f.parent? i with
  | none => exact ⟨rfl, fun _ => rfl, fun _ => rfl⟩
  | some p =>
    exact ⟨size_setChildren .., fun _ => parent?_setChildren .., fun _ => holds_setChildren ..⟩

theorem without_of_parent?_ne {f : Forest} {i q : NodeId}
    (held : ∀ {p c : NodeId}, c ∈ f.children p → f.parent? c = some p)
    (h : f.parent? i ≠ some q) : without (f.children q) [i] = f.children q := by
  refine without_eq_self fun c hc hci => h ?_
  rw [← List.mem_singleton.mp hci]
  exact held hc

theorem children_leaveParent {f : Forest} (i q : NodeId)
    (held : ∀ {p c : NodeId}, c ∈ f.children p → f.parent? c = some p) :
    (f.leaveParent i).children q = without (f.children q) [i] := by
  unfold leaveParent
  cases hp : f.parent? i with
  | none =>
    rw [without_of_parent?_ne held (by rw [hp]; simp)]
  | some p =>
    show (f.setChildren p _).children q = _
    rw [children_setChildren]
    by_cases hpq : p = q
    · subst hpq
      by_cases hlt : p < f.size
      · rw [if_pos ⟨rfl, hlt⟩]
        refine List.filter_congr fun c _ => ?_
        by_cases hc : c = i <;> simp [hc]
      · have hnil : f.children p = [] :=
          List.eq_nil_iff_forall_not_mem.mpr fun c hc => hlt (lt_size_of_mem_children hc)
        rw [if_neg (fun h => hlt h.2), hnil]
        rfl
    · have hne : f.parent? i ≠ some q := by
        rw [hp]
        exact fun h => hpq (Option.some.inj h)
      rw [if_neg (fun h => hpq h.1), without_of_parent?_ne held hne]

/-! ### Adoption -/

theorem adopt_rehung {f : Forest} (wf : f.WellFormed) {host child : NodeId}
    (hhost : host < f.size) (hchild : child < f.size) :
    Rehung f ((f.leaveParent child).append host child) host
      (without (f.children host) [child] ++ [child]) := by
  obtain ⟨hs, hp, hh⟩ := f.leaveParent_views child
  have hc := fun q => children_leaveParent (f := f) child q wf.held
  unfold append
  rw [modify_push_eq_setChildren]
  refine ⟨?_, ?_, ?_, ?_, ?_, ?_, ?_⟩
  · rw [size_setChildren, size_setParent, hs]
  · intro i
    rw [holds_setChildren, holds_setParent, hh]
  · rw [children_setChildren, if_pos ⟨rfl, by rw [size_setParent, hs]; exact hhost⟩,
      children_setParent, hc]
  · intro q hq
    rw [children_setChildren, if_neg (fun h => hq h.1.symm), children_setParent, hc]
    refine without_congr fun c hcq => ?_
    have hnot : c ∉ f.children host := fun h => hq (wf.eq_of_mem_children hcq h)
    simp [hnot]
  · intro i hi
    rw [parent?_setChildren, parent?_setParent]
    rcases List.mem_append.mp hi with hi | hi
    · rw [mem_without] at hi
      split
      · rfl
      · rw [hp]; exact wf.held hi.1
    · rw [List.mem_singleton.mp hi, if_pos ⟨rfl, by rw [hs]; exact hchild⟩]
  · intro i hi hni
    refine absurd ?_ hni
    by_cases hic : i = child
    · simp [hic]
    · simp [hi, hic]
  · intro i hni _
    have hic : i ≠ child := fun h => hni (by simp [h])
    rw [parent?_setChildren, parent?_setParent, if_neg (fun h => hic h.1.symm), hp]

/-- What an adoption does: it is refused where the child stands above, and rehangs the child
otherwise. -/
theorem adopt_cases {f : Forest} (wf : f.WellFormed) {host child : NodeId}
    (hhost : host < f.size) (hchild : child < f.size) :
    (f.Above child host ∧ f.adopt host child = .error (f.refusal child .adoptCycle)) ∨
      ∃ g, f.adopt host child = .ok g ∧ ¬ f.Above child host ∧ g.WellFormed ∧
        Rehung f g host (without (f.children host) [child] ++ [child]) := by
  unfold adopt
  by_cases ha : f.isAncestor child host = true
  · exact .inl ⟨(wf.isAncestor_iff hhost).mp ha, by rw [if_pos ha]⟩
  · have hclear : ¬ f.Above child host := fun h => ha ((wf.isAncestor_iff hhost).mpr h)
    have r := adopt_rehung wf hhost hchild
    refine .inr ⟨_, by rw [if_neg ha], hclear, ?_, r⟩
    refine r.wellFormed wf hhost ?_ ?_
    · rw [List.nodup_append]
      refine ⟨(wf.once host).sublist (without_sublist _ _), List.nodup_singleton _, ?_⟩
      intro a hm b hb hab
      rw [mem_without] at hm
      exact hm.2 (hab ▸ hb)
    · intro i hi
      rcases List.mem_append.mp hi with hi | hi
      · exact wf.not_above_of_mem_children (mem_without.mp hi).1
      · rw [List.mem_singleton.mp hi]; exact hclear

/-! ### Exchange -/

def window (l : List NodeId) (start stop : Nat) : List NodeId := (l.drop start).take (stop - start)

def exchanged (old : List NodeId) (start stop : Nat) (items : List NodeId) : List NodeId :=
  without (old.take start) items ++ items ++ without (old.drop stop) items

theorem mem_of_mem_window {l : List NodeId} {start stop : Nat} {i : NodeId}
    (h : i ∈ window l start stop) : i ∈ l :=
  List.mem_of_mem_drop (List.mem_of_mem_take h)

theorem eq_window (l : List NodeId) {start stop : Nat} (h : start ≤ stop) :
    l = l.take start ++ (window l start stop ++ l.drop stop) := by
  have hd : l.drop stop = (l.drop start).drop (stop - start) := by
    rw [List.drop_drop]
    congr 1
    omega
  rw [hd, window, List.take_append_drop, List.take_append_drop]

theorem mem_exchanged {old items : List NodeId} {start stop : Nat} {i : NodeId} :
    i ∈ exchanged old start stop items ↔
      i ∈ items ∨ (i ∉ items ∧ (i ∈ old.take start ∨ i ∈ old.drop stop)) := by
  simp only [exchanged, List.mem_append, mem_without]
  tauto

theorem notMem_window_of_mem_exchanged {old items : List NodeId} {start stop : Nat} {i : NodeId}
    (h : start ≤ stop) (hold : old.Nodup) (hi : i ∈ exchanged old start stop items)
    (hni : i ∉ items) : i ∈ old ∧ i ∉ window old start stop := by
  rw [eq_window old h, List.nodup_append] at hold
  obtain ⟨-, hrest, hdis⟩ := hold
  have hdis' := (List.nodup_append.mp hrest).2.2
  rcases mem_exchanged.mp hi with hi | ⟨-, hi | hi⟩
  · exact absurd hi hni
  · exact ⟨List.mem_of_mem_take hi, fun hw => hdis i hi i (List.mem_append_left _ hw) rfl⟩
  · exact ⟨List.mem_of_mem_drop hi, fun hw => hdis' i hw i hi rfl⟩

theorem nodup_exchanged {old items : List NodeId} {start stop : Nat} (h : start ≤ stop)
    (hold : old.Nodup) (hitems : items.Nodup) : (exchanged old start stop items).Nodup := by
  rw [eq_window old h, List.nodup_append] at hold
  obtain ⟨hb, hrest, hdis⟩ := hold
  unfold exchanged
  rw [List.nodup_append, List.nodup_append]
  refine ⟨⟨hb.sublist (without_sublist _ _), hitems, ?_⟩,
    (List.nodup_append.mp hrest).2.1.sublist (without_sublist _ _), ?_⟩
  · intro a ha b hb' hab
    exact (mem_without.mp ha).2 (hab ▸ hb')
  · intro a ha b hb' hab
    rw [mem_without] at hb'
    rcases List.mem_append.mp ha with ha | ha
    · exact hdis a (mem_without.mp ha).1 b (List.mem_append_right _ hb'.1) hab
    · exact hb'.2 (hab ▸ ha)

theorem leaveOther_views (f : Forest) (host i : NodeId) :
    (f.leaveOther host i).size = f.size ∧
      (∀ j, (f.leaveOther host i).parent? j = f.parent? j) ∧
      ∀ j, (f.leaveOther host i).holds j = f.holds j := by
  unfold leaveOther
  split
  · exact ⟨rfl, fun _ => rfl, fun _ => rfl⟩
  · exact f.leaveParent_views i

theorem children_leaveOther {f : Forest} (host i q : NodeId)
    (held : ∀ {p c : NodeId}, c ∈ f.children p → f.parent? c = some p) :
    (f.leaveOther host i).children q =
      if q = host then f.children q else without (f.children q) [i] := by
  unfold leaveOther
  by_cases hi : f.parent? i = some host
  · rw [if_pos hi]
    by_cases hq : q = host
    · rw [if_pos hq]
    · have hne : f.parent? i ≠ some q := by
        rw [hi]
        exact fun h => hq (Option.some.inj h).symm
      rw [if_neg hq, without_of_parent?_ne held hne]
  · rw [if_neg hi, children_leaveParent i q held]
    by_cases hq : q = host
    · subst hq
      rw [if_pos rfl, without_of_parent?_ne held hi]
    · rw [if_neg hq]

theorem foldl_leaveOther_views (host : NodeId) (items : List NodeId) (f : Forest) :
    (items.foldl (fun f i => f.leaveOther host i) f).size = f.size ∧
      (∀ j, (items.foldl (fun f i => f.leaveOther host i) f).parent? j = f.parent? j) ∧
      ∀ j, (items.foldl (fun f i => f.leaveOther host i) f).holds j = f.holds j := by
  induction items generalizing f with
  | nil => exact ⟨rfl, fun _ => rfl, fun _ => rfl⟩
  | cons i rest ih =>
    obtain ⟨hs, hp, hh⟩ := f.leaveOther_views host i
    obtain ⟨hs', hp', hh'⟩ := ih (f.leaveOther host i)
    exact ⟨hs'.trans hs, fun j => (hp' j).trans (hp j), fun j => (hh' j).trans (hh j)⟩

theorem children_foldl_leaveOther (host : NodeId) (items : List NodeId) (f : Forest) (q : NodeId)
    (held : ∀ {p c : NodeId}, c ∈ f.children p → f.parent? c = some p) :
    (items.foldl (fun f i => f.leaveOther host i) f).children q =
      if q = host then f.children q else without (f.children q) items := by
  induction items generalizing f with
  | nil => simp
  | cons i rest ih =>
    have hp := (f.leaveOther_views host i).2.1
    have held' : ∀ {p c : NodeId}, c ∈ (f.leaveOther host i).children p →
        (f.leaveOther host i).parent? c = some p := by
      intro p c hc
      rw [hp]
      rw [children_leaveOther host i p held] at hc
      split at hc
      · exact held hc
      · exact held (mem_without.mp hc).1
    rw [List.foldl_cons, ih _ held', children_leaveOther host i q held]
    by_cases hq : q = host
    · rw [if_pos hq, if_pos hq, if_pos hq]
    · rw [if_neg hq, if_neg hq, if_neg hq, without_without, List.singleton_append]

theorem foldl_setParent_views (p : Option NodeId) (items : List NodeId) (f : Forest) :
    (items.foldl (fun f i => f.setParent i p) f).size = f.size ∧
      (∀ j, (items.foldl (fun f i => f.setParent i p) f).children j = f.children j) ∧
      ∀ j, (items.foldl (fun f i => f.setParent i p) f).holds j = f.holds j := by
  induction items generalizing f with
  | nil => exact ⟨rfl, fun _ => rfl, fun _ => rfl⟩
  | cons i rest ih =>
    obtain ⟨hs, hc, hh⟩ := ih (f.setParent i p)
    exact ⟨hs.trans (size_setParent ..), fun j => (hc j).trans (children_setParent ..),
      fun j => (hh j).trans (holds_setParent ..)⟩

theorem parent?_foldl_setParent (p : Option NodeId) (items : List NodeId) (f : Forest)
    (j : NodeId) :
    (items.foldl (fun f i => f.setParent i p) f).parent? j =
      if j ∈ items ∧ j < f.size then p else f.parent? j := by
  induction items generalizing f with
  | nil => simp
  | cons i rest ih =>
    rw [List.foldl_cons, ih, size_setParent, parent?_setParent]
    by_cases hlt : j < f.size
    · by_cases hj : j ∈ rest
      · simp [hlt, hj]
      · by_cases hij : i = j
        · simp [hlt, hij]
        · simp [hlt, hj, hij, Ne.symm hij]
    · simp [hlt]

theorem exchange_snd (f : Forest) (host : NodeId) (start stop : Nat) (items : List NodeId) :
    (f.exchange host start stop items).2 =
      without (window (f.children host) start stop) items := rfl

theorem parent?_exchange {f : Forest} (wf : f.WellFormed) (host : NodeId) (start stop : Nat)
    {items : List NodeId} (hitems : ∀ i ∈ items, i < f.size) (j : NodeId) :
    (f.exchange host start stop items).1.parent? j =
      if j ∈ (f.exchange host start stop items).2 then none
      else if j ∈ items then some host else f.parent? j := by
  let removed := (f.exchange host start stop items).2
  let f₁ := items.foldl (fun f i => f.leaveOther host i) f
  let f₂ := f₁.setChildren host (exchanged (f.children host) start stop items)
  let f₃ := items.foldl (fun f i => f.setParent i (some host)) f₂
  obtain ⟨hs₁, hp₁, -⟩ := foldl_leaveOther_views host items f
  have hs₂ : f₂.size = f.size := (size_setChildren ..).trans hs₁
  have hs₃ : f₃.size = f.size := (foldl_setParent_views (some host) items f₂).1.trans hs₂
  have hp₃ : f₃.parent? j = if j ∈ items ∧ j < f.size then some host else f.parent? j := by
    rw [parent?_foldl_setParent, hs₂, parent?_setChildren, hp₁]
  have hp₄ : (f.exchange host start stop items).1.parent? j =
      if j ∈ removed ∧ j < f₃.size then none else f₃.parent? j :=
    parent?_foldl_setParent none removed f₃ j
  rw [hp₄, hs₃, hp₃]
  by_cases hr : j ∈ removed
  · have hlt : j < f.size := wf.child_lt (mem_of_mem_window (mem_without.mp hr).1)
    rw [if_pos ⟨hr, hlt⟩, if_pos hr]
  · rw [if_neg (fun h => hr h.1), if_neg hr]
    by_cases hi : j ∈ items
    · rw [if_pos ⟨hi, hitems j hi⟩, if_pos hi]
    · rw [if_neg (fun h => hi h.1), if_neg hi]

theorem exchange_views (f : Forest) (host : NodeId) (start stop : Nat) (items : List NodeId) :
    (f.exchange host start stop items).1.size = f.size ∧
      ∀ j, (f.exchange host start stop items).1.holds j = f.holds j := by
  let f₁ := items.foldl (fun f i => f.leaveOther host i) f
  let f₂ := f₁.setChildren host (exchanged (f.children host) start stop items)
  let f₃ := items.foldl (fun f i => f.setParent i (some host)) f₂
  obtain ⟨hs₁, -, hh₁⟩ := foldl_leaveOther_views host items f
  obtain ⟨hs₃, -, hh₃⟩ := foldl_setParent_views (some host) items f₂
  obtain ⟨hs₄, -, hh₄⟩ := foldl_setParent_views none (f.exchange host start stop items).2 f₃
  refine ⟨hs₄.trans (hs₃.trans ((size_setChildren ..).trans hs₁)), fun j => ?_⟩
  exact (hh₄ j).trans ((hh₃ j).trans ((holds_setChildren ..).trans (hh₁ j)))

theorem children_exchange {f : Forest} (wf : f.WellFormed) {host : NodeId} (hhost : host < f.size)
    (start stop : Nat) (items : List NodeId) (q : NodeId) :
    (f.exchange host start stop items).1.children q =
      if q = host then exchanged (f.children host) start stop items
      else without (f.children q) items := by
  let f₁ := items.foldl (fun f i => f.leaveOther host i) f
  let f₂ := f₁.setChildren host (exchanged (f.children host) start stop items)
  let f₃ := items.foldl (fun f i => f.setParent i (some host)) f₂
  have hs₁ : f₁.size = f.size := (foldl_leaveOther_views host items f).1
  have hc₃ := (foldl_setParent_views (some host) items f₂).2.1 q
  have hc₄ := (foldl_setParent_views none (f.exchange host start stop items).2 f₃).2.1 q
  refine hc₄.trans (hc₃.trans ?_)
  rw [children_setChildren]
  by_cases hq : q = host
  · rw [if_pos ⟨hq.symm, by rw [hs₁, hq]; exact hhost⟩, if_pos hq]
  · rw [if_neg (fun h => hq h.1.symm), if_neg hq, children_foldl_leaveOther host items f q wf.held,
      if_neg hq]

theorem exchange_rehung {f : Forest} (wf : f.WellFormed) {host : NodeId} {start stop : Nat}
    {items : List NodeId} (h : start ≤ stop) (hhost : host < f.size)
    (hitems : ∀ i ∈ items, i < f.size) :
    Rehung f (f.exchange host start stop items).1 host
      (exchanged (f.children host) start stop items) := by
  obtain ⟨hsize, hholds⟩ := exchange_views f host start stop items
  have hc := children_exchange wf hhost start stop items
  have hp := parent?_exchange wf host start stop hitems
  refine ⟨hsize, hholds, ?_, ?_, ?_, ?_, ?_⟩
  · rw [hc, if_pos rfl]
  · intro q hq
    rw [hc, if_neg hq]
    -- A child of another node is on the new list only as one of the items.
    refine without_congr fun c hc => ⟨fun hci => mem_exchanged.mpr (.inl hci), fun hce => ?_⟩
    refine Classical.byContradiction fun hci => hq ?_
    exact wf.eq_of_mem_children hc
      (notMem_window_of_mem_exchanged h (wf.once host) hce hci).1
  · intro i hi
    rw [hp, exchange_snd]
    by_cases hii : i ∈ items
    · rw [if_neg (fun hr => (mem_without.mp hr).2 hii), if_pos hii]
    · obtain ⟨hio, hnw⟩ := notMem_window_of_mem_exchanged h (wf.once host) hi hii
      rw [if_neg (fun hr => hnw (mem_without.mp hr).1), if_neg hii]
      exact wf.held hio
  · intro i hi hni
    have hii : i ∉ items := fun h => hni (mem_exchanged.mpr (.inl h))
    rw [hp, exchange_snd, if_pos]
    rw [eq_window (f.children host) h, List.mem_append, List.mem_append] at hi
    rcases hi with hi | hi | hi
    · exact absurd (mem_exchanged.mpr (.inr ⟨hii, .inl hi⟩)) hni
    · exact mem_without.mpr ⟨hi, hii⟩
    · exact absurd (mem_exchanged.mpr (.inr ⟨hii, .inr hi⟩)) hni
  · intro i hni hi
    have hii : i ∉ items := fun h => hni (mem_exchanged.mpr (.inl h))
    rw [hp, exchange_snd, if_neg (fun hr => hi (mem_of_mem_window (mem_without.mp hr).1)),
      if_neg hii]

theorem wellFormed_exchange {f : Forest} (wf : f.WellFormed) {host : NodeId} {start stop : Nat}
    {items : List NodeId} (h : start ≤ stop) (hhost : host < f.size)
    (hitems : ∀ i ∈ items, i < f.size) (nodup : items.Nodup)
    (clear : ∀ i ∈ items, ¬ f.Above i host) :
    (f.exchange host start stop items).1.WellFormed := by
  have hn := nodup_exchanged h (wf.once host) nodup
  refine (exchange_rehung wf h hhost hitems).wellFormed wf hhost hn fun i hi => ?_
  rcases mem_exchanged.mp hi with hi | ⟨-, hi | hi⟩
  · exact clear i hi
  · exact wf.not_above_of_mem_children (List.mem_of_mem_take hi)
  · exact wf.not_above_of_mem_children (List.mem_of_mem_drop hi)

end Forest
end SvgTree
