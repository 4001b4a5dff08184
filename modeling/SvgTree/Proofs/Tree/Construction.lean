/-
What a building that goes through has built.

The worklist fills one node after the other, and a node that is filled must stay as it is
while the nodes below it are.  It does, where no existing node is named twice: whatever is
still to be taken is named in an item to come, and nothing that a filled node holds is.
-/
import Mathlib.Data.List.Forall2
import SvgTree.Proofs.Tree.Attach

namespace SvgTree

open Blueprint (named namedAll)

namespace Forest

/-- The node is what the blueprint asks for, with all below it. -/
inductive Built (g : Forest) : Blueprint → NodeId → Prop where
  | existing (i : NodeId) : Built g (.existing i) i
  | fresh {fields : Fields} {items : List Blueprint} {n : NodeId} {ofClass : NodeClass} :
    g.holds n = some (fields, ofClass) → List.Forall₂ (Built g) items (g.children n) →
    Built g (.fresh fields items) n

/-- The node that an item became, while the items of a new one are still waiting. -/
inductive Made (g : Forest) (left : List Pending) : Blueprint → NodeId → Prop where
  | existing (i : NodeId) : Made g left (.existing i) i
  | fresh {fields : Fields} {items : List Blueprint} {n : NodeId} {ofClass : NodeClass} :
    g.holds n = some (fields, ofClass) → ⟨n, items⟩ ∈ left → Made g left (.fresh fields items) n

def namesOf (waiting : List Pending) : List NodeId := waiting.flatMap fun p => namedAll p.items

def hostsOf (waiting : List Pending) : List NodeId := waiting.map Pending.host

/-- From `f` to `g` all nodes keep what they hold, and their children as long as these are not
among `names`, the nodes of `hosts` apart. -/
structure Spares (f g : Forest) (hosts names : List NodeId) : Prop where
  size_le : f.size ≤ g.size
  holds_eq : ∀ {j : NodeId}, j < f.size → g.holds j = f.holds j
  children_eq : ∀ {j : NodeId}, j < f.size → j ∉ hosts → (∀ c ∈ f.children j, c ∉ names) →
    g.children j = f.children j

namespace Spares

variable {f g h : Forest} {hosts names : List NodeId}

theorem refl (f : Forest) (hosts names : List NodeId) : Spares f f hosts names :=
  ⟨Nat.le_refl _, fun _ => rfl, fun _ _ _ => rfl⟩

theorem trans {hosts₁ hosts₂ names₁ names₂ : List NodeId} (a : Spares f g hosts₁ names₁)
    (b : Spares g h hosts₂ names₂) (hh₁ : ∀ j ∈ hosts₁, j ∈ hosts)
    (hh₂ : ∀ j ∈ hosts₂, j < f.size → j ∈ hosts) (hn₁ : ∀ i ∈ names₁, i ∈ names)
    (hn₂ : ∀ i ∈ names₂, i ∈ names) : Spares f h hosts names where
  size_le := Nat.le_trans a.size_le b.size_le
  holds_eq hj := (b.holds_eq (Nat.lt_of_lt_of_le hj a.size_le)).trans (a.holds_eq hj)
  children_eq {j} hj hnot hclear := by
    have first := a.children_eq hj (fun hm => hnot (hh₁ j hm))
      fun c hc hn => hclear c hc (hn₁ c hn)
    rw [← first]
    refine b.children_eq (Nat.lt_of_lt_of_le hj a.size_le) (fun hm => hnot (hh₂ j hm hj)) ?_
    rw [first]
    exact fun c hc hn => hclear c hc (hn₂ c hn)

end Spares

/-- Nodes that wait for their items.  They are new and distinct and hold nothing yet, and no
existing node is named twice. -/
structure Poised (old : Nat) (f : Forest) (waiting : List Pending) : Prop where
  wellFormed : f.WellFormed
  le : old ≤ f.size
  ready : ∀ p ∈ waiting, p.Ready old f
  bare : ∀ p ∈ waiting, f.children p.host = []
  distinct : (hostsOf waiting).Nodup
  once : (namesOf waiting).Nodup

/-- A node that is being filled, with items to come and others that wait.  Nothing that it
holds is named any more. -/
structure Filling (old : Nat) (f : Forest) (host : NodeId) (items : List Blueprint)
    (waiting : List Pending) : Prop extends Poised old f waiting where
  apart : host ∉ hostsOf waiting
  host_ready : Pending.Ready old f ⟨host, items⟩
  all_once : (namedAll items ++ namesOf waiting).Nodup
  clear : ∀ c ∈ f.children host, c ∉ namedAll items ++ namesOf waiting

theorem Poised.head {old : Nat} {f : Forest} {p : Pending} {rest : List Pending}
    (x : Poised old f (p :: rest)) : Filling old f p.host p.items rest where
  wellFormed := x.wellFormed
  le := x.le
  ready q hq := x.ready q (List.mem_cons_of_mem _ hq)
  bare q hq := x.bare q (List.mem_cons_of_mem _ hq)
  distinct := (List.nodup_cons.mp x.distinct).2
  once := (List.nodup_append.mp x.once).2.1
  apart := (List.nodup_cons.mp x.distinct).1
  host_ready := x.ready p List.mem_cons_self
  all_once := x.once
  clear c hc := by
    rw [x.bare p List.mem_cons_self] at hc
    exact absurd hc List.not_mem_nil

theorem namedAll_existing (i : NodeId) (rest : List Blueprint) :
    namedAll (.existing i :: rest) = i :: namedAll rest := by
  rw [namedAll, named]
  rfl

theorem namedAll_fresh (fields : Fields) (inner rest : List Blueprint) :
    namedAll (.fresh fields inner :: rest) = namedAll inner ++ namedAll rest := by
  rw [namedAll, named]

theorem adopt_append {f g : Forest} (wf : f.WellFormed) {host i : NodeId} (hhost : host < f.size)
    (hi : i < f.size) (hnot : i ∉ f.children host) (h : f.adopt host i = .ok g) :
    g.WellFormed ∧ g.children host = f.children host ++ [i] ∧ Spares f g [host] [i] := by
  rcases adopt_cases wf hhost hi with ⟨-, hadopt⟩ | ⟨g', hadopt, -, wf', r⟩
  · rw [h] at hadopt
    cases hadopt
  rw [h] at hadopt
  cases hadopt
  have hkeep : without (f.children host) [i] = f.children host :=
    without_eq_self fun c hc hci => hnot (List.mem_singleton.mp hci ▸ hc)
  rw [hkeep] at r
  refine ⟨wf', r.children_host, Nat.le_of_eq r.size_eq.symm, fun _ => r.holds_eq _, ?_⟩
  -- Another list of children loses nothing but the node.
  intro j _ hj hij
  have hne : j ≠ host := fun h => hj (h ▸ List.mem_singleton_self _)
  rw [r.children_other j hne]
  refine without_eq_self fun c hc hmem => ?_
  rcases List.mem_append.mp hmem with hmem | hmem
  · exact hne (wf.eq_of_mem_children hc hmem)
  · exact hij c hc hmem

theorem spares_addUnder {f : Forest} {host : NodeId} (hhost : host < f.size) (fields : Fields) :
    Spares f (f.addUnder host fields).1 [host] [] where
  size_le := Nat.le_of_lt (lt_size_addUnder hhost fields)
  holds_eq hj := by rw [holds_addUnder hhost, if_neg (Nat.ne_of_lt hj)]
  children_eq {j} hj hne _ := by
    rw [children_addUnder hhost, if_neg fun h : j = host => hne (h ▸ List.mem_singleton_self _),
      if_neg (Nat.ne_of_lt hj)]

namespace Filling

variable {old : Nat} {f g : Forest} {host i : NodeId} {rest inner : List Blueprint}
  {fields : Fields} {waiting : List Pending}

theorem named_lt (x : Filling old f host rest waiting) :
    ∀ i ∈ namedAll rest ++ namesOf waiting, i < f.size := by
  intro i hi
  refine Nat.lt_of_lt_of_le ?_ x.le
  rcases List.mem_append.mp hi with hi | hi
  · exact x.host_ready.named_lt i hi
  · obtain ⟨p, hp, hip⟩ := List.mem_flatMap.mp hi
    exact (x.ready p hp).named_lt i hip

theorem host_ne (x : Filling old f host rest waiting) {p : Pending} (hp : p ∈ waiting) :
    p.host ≠ host := fun h => x.apart (h ▸ List.mem_map_of_mem hp)

theorem adopt (x : Filling old f host (.existing i :: rest) waiting)
    (h : f.adopt host i = .ok g) :
    Filling old g host rest waiting ∧ g.children host = f.children host ++ [i] ∧
      Spares f g [host] [i] := by
  have hready := x.host_ready.named_lt
  have honce := x.all_once
  have hclear := x.clear
  simp only [namedAll_existing, List.cons_append, List.mem_cons, forall_eq_or_imp,
    List.nodup_cons, not_or] at hready honce hclear
  have hi : i < f.size := Nat.lt_of_lt_of_le hready.1 x.le
  obtain ⟨wf, hchildren, spares⟩ := adopt_append x.wellFormed x.host_ready.host_lt hi
    (fun hmem => (hclear i hmem).1 rfl) h
  have filling : Filling old g host rest waiting := {
    wellFormed := wf
    le := Nat.le_trans x.le spares.size_le
    ready := fun p hp => (x.ready p hp).mono spares.size_le
    bare := fun p hp => by
      have hne : p.host ∉ [host] := fun h => x.host_ne hp (List.mem_singleton.mp h)
      have hbare := x.bare p hp
      rw [spares.children_eq (x.ready p hp).host_lt hne (by rw [hbare]; simp), hbare]
    distinct := x.distinct
    once := x.once
    apart := x.apart
    host_ready := ⟨x.host_ready.new, Nat.lt_of_lt_of_le x.host_ready.host_lt spares.size_le,
      hready.2⟩
    all_once := honce.2
    clear := fun c hc => by
      rw [hchildren] at hc
      rcases List.mem_append.mp hc with hc | hc
      · exact (hclear c hc).2
      · rw [List.mem_singleton.mp hc]
        exact honce.1 }
  exact ⟨filling, hchildren, spares⟩

theorem names_perm (id : NodeId) (fields : Fields) (inner rest : List Blueprint)
    (waiting : List Pending) :
    (namedAll rest ++ namesOf (⟨id, inner⟩ :: waiting)).Perm
      (namedAll (.fresh fields inner :: rest) ++ namesOf waiting) := by
  rw [namedAll_fresh]
  show (namedAll rest ++ (namedAll inner ++ namesOf waiting)).Perm _
  rw [← List.append_assoc]
  exact List.perm_append_comm.append_right _

theorem addUnder (x : Filling old f host (.fresh fields inner :: rest) waiting) :
    Filling old (f.addUnder host fields).1 host rest (⟨f.size, inner⟩ :: waiting) ∧
      (f.addUnder host fields).1.children host = f.children host ++ [f.size] := by
  have hhost := x.host_ready.host_lt
  have hready := x.host_ready.named_lt
  rw [namedAll_fresh] at hready
  have spares := spares_addUnder hhost fields
  have hperm := names_perm f.size fields inner rest waiting
  have honce := hperm.nodup_iff.mpr x.all_once
  have hchildren : (f.addUnder host fields).1.children host = f.children host ++ [f.size] := by
    rw [children_addUnder hhost, if_pos rfl]
  have hself := lt_size_addUnder hhost fields
  have filling : Filling old (f.addUnder host fields).1 host rest (⟨f.size, inner⟩ :: waiting) := {
    wellFormed := x.wellFormed.addUnder hhost fields
    le := Nat.le_trans x.le spares.size_le
    ready := fun p hp => by
      rcases List.mem_cons.mp hp with rfl | hp
      · exact ⟨x.le, hself, fun i hi => hready i (List.mem_append_left _ hi)⟩
      · exact (x.ready p hp).mono spares.size_le
    bare := fun p hp => by
      rw [children_addUnder hhost]
      rcases List.mem_cons.mp hp with rfl | hp
      · rw [if_neg (Nat.ne_of_gt hhost), if_pos rfl]
      · rw [if_neg (x.host_ne hp), if_neg (Nat.ne_of_lt (x.ready p hp).host_lt), x.bare p hp]
    distinct := List.nodup_cons.mpr ⟨fun hmem => by
      obtain ⟨p, hp, heq⟩ := List.mem_map.mp hmem
      exact Nat.ne_of_lt (x.ready p hp).host_lt heq, x.distinct⟩
    once := (List.nodup_append.mp honce).2.1
    apart := fun hmem => (List.mem_cons.mp hmem).elim (Nat.ne_of_lt hhost) x.apart
    host_ready := ⟨x.host_ready.new, Nat.lt_trans hhost hself,
      fun i hi => hready i (List.mem_append_right _ hi)⟩
    all_once := honce
    clear := fun c hc hmem => by
      rw [hperm.mem_iff] at hmem
      rw [hchildren] at hc
      rcases List.mem_append.mp hc with hc | hc
      · exact x.clear c hc hmem
      · exact Nat.ne_of_lt (x.named_lt c hmem) (List.mem_singleton.mp hc) }
  exact ⟨filling, hchildren⟩

end Filling

structure Filled (old : Nat) (f g : Forest) (host : NodeId) (items : List Blueprint)
    (waiting left : List Pending) (ids : List NodeId) : Prop extends
    Poised old g left, Spares f g [host] (namedAll items) where
  apart : host ∉ hostsOf left
  children_host : g.children host = f.children host ++ ids
  clear : ∀ c ∈ g.children host, c ∉ namesOf left
  made : List.Forall₂ (Made g left) items ids
  waits : ∀ p ∈ waiting, p ∈ left
  names_left : ∀ i ∈ namesOf left, i ∈ namedAll items ++ namesOf waiting
  hosts_left : ∀ j ∈ hostsOf left, j < f.size → j ∈ hostsOf waiting

theorem attachItems_filled {old : Nat} {f g : Forest} {host : NodeId} {items : List Blueprint}
    {waiting left : List Pending} (x : Filling old f host items waiting)
    (h : f.attachItems host items waiting = (g, .ok left)) :
    ∃ ids, Filled old f g host items waiting left ids := by
  induction items generalizing f waiting with
  | nil =>
    cases h
    exact ⟨[], x.toPoised, .refl .., x.apart, (List.append_nil _).symm, x.clear, .nil,
      fun p hp => hp, fun i hi => hi, fun j hj _ => hj⟩
  | cons b rest ih =>
    cases b with
    | broken e => cases h
    | existing i =>
      simp only [attachItems] at h
      split at h
      · cases h
      rename_i f₁ hadopt
      obtain ⟨x₁, hchildren, spares⟩ := x.adopt hadopt
      obtain ⟨ids, y⟩ := ih x₁ h
      have hsub : ∀ j ∈ namedAll rest ++ namesOf waiting,
          j ∈ namedAll (.existing i :: rest) ++ namesOf waiting := by
        intro j hj
        rw [namedAll_existing]
        exact List.mem_cons_of_mem _ hj
      refine ⟨i :: ids, y.toPoised, ?_, y.apart, ?_, y.clear, .cons (.existing i) y.made, y.waits,
        fun j hj => hsub j (y.names_left j hj), fun j hj hlt => ?_⟩
      · rw [namedAll_existing]
        refine spares.trans y.toSpares (fun _ hj => hj) (fun _ hj _ => hj) ?_ ?_
        · exact fun j hj => List.mem_singleton.mp hj ▸ List.mem_cons_self
        · exact fun j hj => List.mem_cons_of_mem _ hj
      · rw [y.children_host, hchildren, List.append_assoc, List.singleton_append]
      · exact y.hosts_left j hj (Nat.lt_of_lt_of_le hlt spares.size_le)
    | fresh fields inner =>
      have hhost := x.host_ready.host_lt
      obtain ⟨x₁, hchildren⟩ := x.addUnder
      have spares := spares_addUnder hhost fields
      simp only [attachItems, addUnder_snd hhost] at h
      obtain ⟨ids, y⟩ := ih x₁ h
      have hlt := lt_size_addUnder hhost fields
      have hholds : g.holds f.size = some (fields, (f.node host).ofClass) := by
        rw [y.holds_eq hlt, holds_addUnder hhost, if_pos rfl]
      have hnode : Made g left (.fresh fields inner) f.size :=
        .fresh hholds (y.waits _ List.mem_cons_self)
      refine ⟨f.size :: ids, y.toPoised, ?_, y.apart, ?_, y.clear, .cons hnode y.made,
        fun p hp => y.waits p (List.mem_cons_of_mem _ hp), fun j hj => ?_, fun j hj hj' => ?_⟩
      · rw [namedAll_fresh]
        refine spares.trans y.toSpares (fun _ hj => hj) (fun _ hj _ => hj) ?_ ?_
        · exact fun j hj => absurd hj List.not_mem_nil
        · exact fun j hj => List.mem_append_right _ hj
      · rw [y.children_host, hchildren, List.append_assoc, List.singleton_append]
      · have hmem := y.names_left j hj
        rw [namedAll_fresh]
        simp only [namesOf, List.flatMap_cons, List.mem_append] at hmem ⊢
        tauto
      · have hmem := y.hosts_left j hj (Nat.lt_trans hj' hlt)
        exact (List.mem_cons.mp hmem).resolve_left (Nat.ne_of_lt hj')

/-- What an item became is built once all that waited is. -/
theorem Made.built {old : Nat} {f g : Forest} {left : List Pending} {hosts names : List NodeId}
    {b : Blueprint} {n : NodeId} (m : Made f left b n) (x : Poised old f left)
    (spares : Spares f g hosts names)
    (hbuilt : ∀ p ∈ left, List.Forall₂ (Built g) p.items (g.children p.host)) : Built g b n := by
  cases m with
  | existing => exact .existing n
  | fresh hholds hleft =>
    have hn : n < f.size := (x.ready _ hleft).host_lt
    exact .fresh ((spares.holds_eq hn).trans hholds) (hbuilt _ hleft)

/-- A worklist that is done has built all that waited, and spared the rest. -/
theorem attach_built {old : Nat} {f g : Forest} {waiting : List Pending}
    (x : Poised old f waiting) (h : f.attach waiting = (g, .ok ())) :
    (∀ p ∈ waiting, List.Forall₂ (Built g) p.items (g.children p.host)) ∧
      Spares f g (hostsOf waiting) (namesOf waiting) ∧ g.WellFormed := by
  induction f, waiting using attach.induct with
  | case1 f =>
    rw [attach] at h
    cases h
    exact ⟨by simp, .refl .., x.wellFormed⟩
  | case2 f p rest g' e hrun =>
    rw [attach, hrun] at h
    cases h
  | case3 f p rest f₁ left hrun ih =>
    rw [attach, hrun] at h
    obtain ⟨ids, y⟩ := attachItems_filled x.head hrun
    obtain ⟨hbuilt, spares, wf⟩ := ih y.toPoised h
    -- What was filled stays filled while the rest is worked off.
    have hhost : p.host < f₁.size :=
      Nat.lt_of_lt_of_le (x.ready p List.mem_cons_self).host_lt y.size_le
    have hchildren : g.children p.host = ids := by
      rw [spares.children_eq hhost y.apart y.clear, y.children_host,
        x.bare p List.mem_cons_self, List.nil_append]
    refine ⟨fun q hq => ?_, ?_, wf⟩
    · rcases List.mem_cons.mp hq with rfl | hq
      · rw [hchildren]
        exact y.made.imp fun _ _ hmade => hmade.built y.toPoised spares hbuilt
      · exact hbuilt q (y.waits q hq)
    · refine y.toSpares.trans spares ?_ ?_ ?_ ?_
      · exact fun j hj => List.mem_singleton.mp hj ▸ List.mem_cons_self
      · exact fun j hj hlt => List.mem_cons_of_mem _ (y.hosts_left j hj hlt)
      · exact fun i hi => List.mem_append_left _ hi
      · exact fun i hi => y.names_left i hi

theorem attach_of_construct {f g : Forest} {ofClass : NodeClass} {parent : Option NodeId}
    {fields : Fields} {items : List Blueprint} {n : NodeId}
    (h : f.construct ofClass parent fields items = (g, .ok n)) :
    n = f.size ∧
      (f.add ⟨fields, ofClass, parent, []⟩).1.attach [⟨f.size, items⟩] = (g, .ok ()) := by
  rw [construct_eq] at h
  obtain ⟨hg, hdone⟩ := Prod.mk.inj h
  cases hrun : ((f.add ⟨fields, ofClass, parent, []⟩).1.attach [⟨f.size, items⟩]).2 with
  | error e =>
    rw [hrun] at hdone
    cases hdone
  | ok u =>
    rw [hrun] at hdone
    cases hdone
    exact ⟨rfl, Prod.ext hg hrun⟩

/-- A new tree is what its blueprint asks for, where no existing node is named twice.  A node
that holds none of the named ones keeps its children. -/
theorem realize_built {f g : Forest} (wf : f.WellFormed) {ofClass : NodeClass} {b : Blueprint}
    {r : NodeId} (hn : ∀ i ∈ named b, i < f.size) (honce : (named b).Nodup)
    (h : f.realize ofClass none b = (g, .ok r)) :
    Built g b r ∧ r < g.size ∧ Spares f g [] (named b) ∧ g.WellFormed := by
  cases b with
  | existing i => cases h
  | broken e => cases h
  | fresh fields items =>
    rw [named] at hn honce ⊢
    have hself := f.lt_size_add ⟨fields, ofClass, none, []⟩
    -- The worklist starts with the new node alone.
    have x : Poised f.size (f.add ⟨fields, ofClass, none, []⟩).1 [⟨f.size, items⟩] := by
      refine ⟨wf.add rfl (by simp), Nat.le_of_lt hself, ?_, ?_, List.nodup_singleton _, ?_⟩
      · intro p hp
        rw [List.mem_singleton.mp hp]
        exact ⟨Nat.le_refl _, hself, hn⟩
      · intro p hp
        rw [List.mem_singleton.mp hp, children_add, if_pos rfl]
      · rwa [namesOf, List.flatMap_cons, List.flatMap_nil, List.append_nil]
    rw [realize] at h
    obtain ⟨rfl, hrun⟩ := attach_of_construct h
    obtain ⟨hbuilt, spares, wf'⟩ := attach_built x hrun
    have hholds : g.holds f.size = some (fields, ofClass) := by
      rw [spares.holds_eq hself, holds_add, if_pos rfl]
    refine ⟨.fresh hholds (hbuilt _ (List.mem_singleton_self _)),
      Nat.lt_of_lt_of_le hself spares.size_le, ⟨?_, ?_, ?_⟩, wf'⟩
    · exact Nat.le_trans (Nat.le_of_lt hself) spares.size_le
    · intro j hj
      rw [spares.holds_eq (Nat.lt_trans hj hself), holds_add, if_neg (Nat.ne_of_lt hj)]
    · intro j hj _ hclear
      have hold : (f.add ⟨fields, ofClass, none, []⟩).1.children j = f.children j := by
        rw [children_add, if_neg (Nat.ne_of_lt hj)]
      rw [spares.children_eq (Nat.lt_trans hj hself), hold]
      · exact fun hmem => Nat.ne_of_lt hj (List.mem_singleton.mp hmem)
      · rw [hold]
        intro c hc hmem
        rw [namesOf, List.flatMap_cons, List.flatMap_nil, List.append_nil] at hmem
        exact hclear c hc hmem

end Forest
end SvgTree
