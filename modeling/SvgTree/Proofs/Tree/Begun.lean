/-
Trees that are begun.

A tree is begun from a raw one when it is what that asks for, but for raw children that are
still to come, each of them after those that its parent has by now.  A splice of the next one
at the end of the children leaves a tree that is begun, and a tree with nothing to come is the
whole raw tree.
-/
import SvgTree.Proofs.Tree.RawTree
import SvgTree.Proofs.Tree.SpliceEffect

namespace SvgTree

open Blueprint (ofValue)
open Value (RawTree)

namespace Forest

/-- The node stands for a raw node, in a tree of legacy nodes: it holds what is read from there,
and its children stand for the raw ones but those in `left`, which are to come. -/
inductive Begun (g : Forest) (left : NodeId → List Value) : Value → NodeId → Prop where
  | node {es : List (Value × Value)} {fields : Fields} {n : NodeId} (done : List Value) :
    Fields.ofEntries es = .ok fields → g.holds n = some (fields, .legacy) →
    (Value.dict es).items = done ++ left n → done.length = (g.children n).length →
    (∀ w c, (w, c) ∈ done.zip (g.children n) → Begun g left w c) → Begun g left (.dict es) n

def nothing : NodeId → List Value := fun _ => []

variable {f g : Forest} {left now : NodeId → List Value} {v w : Value} {n c host : NodeId}
  {rest : List Value}

theorem Begun.lt_size (h : Begun f left v n) : n < f.size := by
  cases h with
  | node _ _ hholds =>
    refine Nat.lt_of_not_le fun hle => ?_
    rw [holds, node?_eq_none_iff.mpr hle] at hholds
    cases hholds

theorem Begun.frame {within : NodeId → Prop} (h : Begun f left v n) (hn : within n)
    (closed : ∀ i, within i → ∀ c ∈ f.children i, within c)
    (holds_eq : ∀ i, within i → g.holds i = f.holds i)
    (children_eq : ∀ i, within i → g.children i = f.children i)
    (left_eq : ∀ i, within i → now i = left i) : Begun g now v n := by
  induction h with
  | node done hread hholds hitems hlen _ ih =>
    have hchildren := children_eq _ hn
    refine .node done hread ((holds_eq _ hn).trans hholds) (by rw [left_eq _ hn]; exact hitems)
      (by rw [hchildren]; exact hlen) ?_
    rw [hchildren]
    exact fun w c hc => ih w c hc (closed _ hn c (List.of_mem_zip hc).2)

theorem Begun.push (h : Begun f left v n)
    (holds_eq : ∀ i, i < f.size → g.holds i = f.holds i)
    (children_host : g.children host = f.children host ++ [c])
    (children_other : ∀ i, i < f.size → i ≠ host → g.children i = f.children i)
    (next : left host = w :: rest) (left_host : now host = rest)
    (left_other : ∀ i, i < f.size → i ≠ host → now i = left i)
    (child : Begun g now w c) : Begun g now v n := by
  induction h with
  | @node es fields n done hread hholds hitems hlen hdone ih =>
    have hn : n < f.size := (Begun.node done hread hholds hitems hlen hdone).lt_size
    by_cases hhost : n = host
    · subst hhost
      refine .node (done ++ [w]) hread ((holds_eq _ hn).trans hholds) ?_ ?_ ?_
      · rw [left_host, hitems, next, List.append_assoc, List.singleton_append]
      · rw [children_host, List.length_append, List.length_append, hlen]
        rfl
      · intro u d hd
        rw [children_host, List.zip_append hlen, List.mem_append] at hd
        rcases hd with hd | hd
        · exact ih u d hd
        · rw [List.zip_cons_cons, List.zip_nil_left, List.mem_singleton, Prod.mk.injEq] at hd
          rw [hd.1, hd.2]
          exact child
    · have hchildren := children_other n hn hhost
      refine .node done hread ((holds_eq _ hn).trans hholds)
        (by rw [left_other n hn hhost]; exact hitems) (by rw [hchildren]; exact hlen) ?_
      rw [hchildren]
      exact ih

/-- A raw node by itself is a begun one that all its children are still to come to. -/
theorem Begun.of_bare {es : List (Value × Value)}
    (h : Begun g nothing (Value.dict es).bare n) (hleft : now n = (Value.dict es).items) :
    Begun g now (.dict es) n := by
  have hnil := Value.items_bare es
  rw [Value.bare] at h hnil
  cases h with
  | @node _ fields _ done hread hholds hitems hlen hdone =>
    rw [Value.ofEntries_withoutChildren] at hread
    obtain rfl : done = [] := by
      rw [hnil] at hitems
      exact (List.append_eq_nil_iff.mp hitems.symm).1
    exact .node [] hread hholds (by rw [hleft]; rfl) hlen
      fun w c hc => by rw [List.zip_nil_left] at hc; exact absurd hc List.not_mem_nil

theorem Built.begun {within : NodeId → Prop} (tree : RawTree v) (h : g.Built (ofValue v) n)
    (hn : within n) (closed : ∀ i, within i → ∀ c ∈ g.children i, within c)
    (legacy : ∀ i, within i → (g.node i).ofClass = .legacy) : Begun g nothing v n := by
  induction tree generalizing n with
  | @node es hchildren hitems ih =>
    have tree : RawTree (.dict es) := .node hchildren hitems
    obtain ⟨hread, hbuilt⟩ := h.of_dict
    have hholds : g.holds n = some ((g.node n).toFields, .legacy) := by
      rw [tree.ofValue_ok hread] at h
      cases h with
      | @fresh fields items _ ofClass hholds _ =>
        rw [toFields_of_holds hholds, ← legacy n hn, ofClass_of_holds hholds]
        exact hholds
    obtain ⟨hlen, hzip⟩ := List.forall₂_iff_zip.mp hbuilt
    refine .node (Value.dict es).items hread hholds (List.append_nil _).symm hlen ?_
    intro w c hc
    obtain ⟨hw, hcn⟩ := List.of_mem_zip hc
    exact ih w hw (hzip hc) (closed n hn c hcn)

/-! ### A tree with nothing to come -/

theorem Begun.legacy (wf : g.WellFormed) (h : Begun g nothing v n) :
    ∀ i ∈ g.walk n, (g.node i).ofClass = .legacy := by
  induction h with
  | @node es fields n done hread hholds hitems hlen hdone ih =>
    have hn : n < g.size := (Begun.node done hread hholds hitems hlen hdone).lt_size
    intro i hi
    rw [wf.walk_eq hn, List.mem_cons, List.mem_flatMap] at hi
    rcases hi with rfl | ⟨c, hc, hi⟩
    · exact ofClass_of_holds hholds
    · have hall : List.Forall₂ (fun _ c => ∀ i ∈ g.walk c, (g.node i).ofClass = .legacy) done
          (g.children n) := List.forall₂_iff_zip.mpr ⟨hlen, fun hc => ih _ _ hc⟩
      obtain ⟨k, hk, rfl⟩ := List.mem_iff_getElem.mp hc
      exact hall.get (hlen ▸ hk) hk i hi

/-- Two trees that come out alike, and hold the same at every place, the classes of the nodes
included. -/
structure SameTree (f : Forest) (i : NodeId) (g : Forest) (j : NodeId) : Prop where
  export_eq : f.exportFrom f.size i = g.exportFrom g.size j
  exportable_eq : f.exportableFrom f.size i = g.exportableFrom g.size j
  holds_eq : ∀ path, (f.at? i path).map f.holds = (g.at? j path).map g.holds

theorem SameTree.toRaw_eq {m : NodeId} (s : SameTree f n g m) (wf : f.WellFormed)
    (hn : n < f.size) (wg : g.WellFormed) (hm : m < g.size) : f.toRaw n = g.toRaw m := by
  rw [wf.toRaw_eq_exportFrom hn, wg.toRaw_eq_exportFrom hm, s.export_eq, s.exportable_eq]

/-- `g` is `f` with a new tree of legacy nodes for a raw one, as the last of the children of
`host`. -/
structure Appends (f g : Forest) (host : NodeId) (v : Value) : Prop extends
    Sprouts .legacy f g where
  wellFormed : g.WellFormed
  root_lt : f.size < g.size
  children_host : g.children host = f.children host ++ [f.size]
  children_other : ∀ {i : NodeId}, i < f.size → i ≠ host → g.children i = f.children i
  begun : ∀ {left : NodeId → List Value}, (∀ i, f.size ≤ i → left i = []) →
    Begun g left v f.size

theorem firstPlace_end {len : Nat} {place : Int} (h : len ≤ place) :
    firstPlace len place = len := by
  rw [firstPlace]
  split <;> omega

theorem lastPlace_end {len : Nat} {place : Int} (h : len ≤ place) :
    lastPlace len place 0 = len := by
  rw [lastPlace, firstPlace_end h]
  omega

theorem children_exchange_end (wf : f.WellFormed) (hhost : host < f.size)
    (hfree : ∀ q, c ∉ f.children q) {len : Nat} (hlen : len = (f.children host).length)
    (q : NodeId) : (f.exchange host len len [c]).1.children q =
      if q = host then f.children host ++ [c] else f.children q := by
  have hkeep (q : NodeId) : without (f.children q) [c] = f.children q :=
    without_eq_self fun i hi hmem => hfree q (List.mem_singleton.mp hmem ▸ hi)
  have hend : exchanged (f.children host) len len [c] = f.children host ++ [c] := by
    rw [exchanged, hlen, List.take_length, List.drop_length, hkeep]
    exact List.append_nil _
  rw [children_exchange wf hhost, hkeep, hend]

theorem exchange_end_snd (f : Forest) (host : NodeId) (len : Nat) (items : List NodeId) :
    (f.exchange host len len items).2 = [] := by
  rw [exchange_snd, window, Nat.sub_self, List.take_zero]
  rfl

theorem Plants.apart {ofClass : NodeClass} (p : Plants ofClass f g v) (wf : f.WellFormed)
    (hhost : host < f.size) : (∀ q, f.size ∉ g.children q) ∧ ¬ g.Above f.size host := by
  constructor
  · intro q hq
    have hheld := p.wellFormed.held hq
    rw [p.top] at hheld
    cases hheld
  · rintro ⟨l, hl, hmem⟩
    obtain ⟨k, hk⟩ := wf.grounded host
    have hk' : g.Climbs host k :=
      hk.congr fun j hj => p.parent_eq (wf.lt_size_of_climbs hhost hk hj)
    rw [hl.unique hk'] at hmem
    exact Nat.lt_irrefl _ (wf.lt_size_of_climbs hhost hk hmem)

theorem Plants.closed {ofClass : NodeClass} (p : Plants ofClass f g v) (wf : f.WellFormed) :
    ∀ i, f.size ≤ i ∧ i < g.size → ∀ c ∈ g.children i, f.size ≤ c ∧ c < g.size := by
  intro i hi c hc
  refine ⟨Nat.le_of_not_lt fun hlt => ?_, p.wellFormed.child_lt hc⟩
  have hheld := p.wellFormed.held hc
  rw [p.parent_eq hlt] at hheld
  exact absurd (wf.parent_lt hheld) (Nat.not_lt.mpr hi.1)

theorem Plants.begun (p : Plants .legacy f g v) (tree : RawTree v) (wf : f.WellFormed) :
    Begun g nothing v f.size :=
  p.built.begun tree ⟨Nat.le_refl _, p.root_lt⟩ (p.closed wf) fun _ hi => p.class_eq hi.1 hi.2

/-- A new tree of legacy nodes that is put at the end of the children of an old node. -/
theorem Plants.appends (p : Plants .legacy f g v) (tree : RawTree v) (wf : f.WellFormed)
    (hhost : host < f.size) {len : Nat} (hlen : len = (g.children host).length) :
    Appends f (g.exchange host len len [f.size]).1 host v := by
  obtain ⟨hfree, hclear⟩ := p.apart wf hhost
  have hhost' : host < g.size := Nat.lt_trans hhost p.root_lt
  have hitems : ∀ i ∈ [f.size], i < g.size := by simpa using p.root_lt
  have hchildren := children_exchange_end p.wellFormed hhost' hfree hlen
  obtain ⟨hsize, hholds⟩ := exchange_views g host len len [f.size]
  refine ⟨⟨?_, fun hi => ?_, fun hi => ?_, fun hle hlt => ?_⟩, ?_, ?_, ?_, fun hi hne => ?_,
    fun {left} hleft => ?_⟩
  · rw [hsize]
    exact p.size_le
  · rw [hholds, p.holds_eq hi]
  · rw [parent?_exchange p.wellFormed host len len hitems, exchange_end_snd,
      if_neg List.not_mem_nil, if_neg (by simpa using Nat.ne_of_lt hi), p.parent_eq hi]
  · rw [hsize] at hlt
    rw [ofClass_node_congr (hholds _), p.class_eq hle hlt]
  · exact wellFormed_exchange p.wellFormed (Nat.le_refl _) hhost' hitems (List.nodup_singleton _)
      fun i hi => List.mem_singleton.mp hi ▸ hclear
  · rw [hsize]
    exact p.root_lt
  · rw [hchildren, if_pos rfl, p.children_eq hhost]
  · rw [hchildren, if_neg hne, p.children_eq hi]
  · refine (p.begun tree wf).frame ⟨Nat.le_refl _, p.root_lt⟩ (p.closed wf) (fun i _ => hholds i)
      (fun i hi => ?_) fun i hi => hleft i hi.1
    have hne : i ≠ host := fun h => absurd hhost (Nat.not_lt.mpr (h ▸ hi.1))
    rw [hchildren, if_neg hne]

/-- A splice of a raw tree at the end of the children of a legacy node puts it there, or fails
with the fault of a raw node. -/
theorem splice_at_end (wf : f.WellFormed) (hhost : host < f.size)
    (hclass : (f.node host).ofClass = .legacy) (tree : RawTree v) {place : Int}
    (hplace : (f.children host).length ≤ place) :
    (∃ g, f.splice host (.int place) (.int 0) v = (g, .ok []) ∧ Appends f g host v ∧
      ∀ e, ¬ v.HasFault e) ∨
    ∃ g e, f.splice host (.int place) (.int 0) v = (g, .error e) ∧ v.HasFault e := by
  have hitems : Blueprint.ofInsertions (f.node host).name v = [ofValue v] := by
    cases tree with
    | node _ _ => rfl
  rcases realize_rawTree wf .legacy tree with ⟨g, hrun, p, hno⟩ | ⟨g, e, hrun, he⟩
  · have hall : f.realizeAll (f.node host).ofClass
        (Blueprint.ofInsertions (f.node host).name v) [] = (g, .ok [f.size]) := by
      rw [hitems, hclass, realizeAll_cons tree.ne_existing, hrun]
      rfl
    have hhost' : host < g.size := Nat.lt_trans hhost p.root_lt
    have hobjection : g.objection host [f.size] [] = none := by
      rw [objection_eq_none_iff p.wellFormed hhost']
      refine ⟨List.nodup_singleton _, fun i hi => ⟨List.not_mem_nil, ?_⟩⟩
      rw [List.mem_singleton.mp hi]
      exact (p.apart wf hhost).2
    have hplace' : (g.children host).length ≤ place := by rwa [p.children_eq hhost]
    refine .inl ⟨_, ?_, p.appends tree wf hhost rfl, hno⟩
    rw [splice_int (Int.le_refl 0) hall, hobjection]
    simp only [firstPlace_end hplace', lastPlace_end hplace', Int.toNat_natCast, exchange_end_snd]
  · have hall : f.realizeAll (f.node host).ofClass
        (Blueprint.ofInsertions (f.node host).name v) [] = (g, .error e) := by
      rw [hitems, hclass, realizeAll_cons tree.ne_existing, hrun]
    refine .inr ⟨g, e, ?_, he⟩
    have hneg : Value.Number.isNegative (.whole 0) = false := rfl
    simp [splice, Value.number?, hneg, hall]

end Forest
end SvgTree
