/-
The exact effect of a splice.

Insertions that build without a stop become a list of nodes, and two things about that list
alone decide what follows.  Where a node comes twice or has the host below it the splice is
refused.  Else the list of the host is cut open at places counted before anything moved, and
the nodes that are put in leave every other list and what is left of this one.
-/
import SvgTree.Proofs.Tree.Insertions
import SvgTree.Proofs.Reachable

namespace SvgTree
namespace Forest

variable {f g : Forest} {host : NodeId} {nodes : List NodeId}

/-! ### Refusals -/

def Fits (f : Forest) (host : NodeId) (nodes : List NodeId) : Prop :=
  nodes.Nodup ∧ ∀ i ∈ nodes, ¬ f.Above i host

/-- The first of the nodes that cannot be put under `host`, with those before it. -/
structure FirstUnfit (f : Forest) (host : NodeId) (nodes before : List NodeId) (n : NodeId) :
    Prop where
  split : ∃ rest, nodes = before ++ n :: rest
  fits : f.Fits host before
  unfit : n ∈ before ∨ f.Above n host

/-- The fault of a splice of `nodes` under `host`, where `g` has the insertions built.  A refusal
describes the first node that does not fit; where that one cannot be described, the attempt is
the fault. -/
inductive Refuses (f g : Forest) (host : NodeId) (count : Int) (nodes : List NodeId) :
    Fault → Prop where
  | negative : count < 0 → Refuses f g host count nodes (.negativeCount (.int count))
  | twice {before : List NodeId} {n : NodeId} : 0 ≤ count → f.FirstUnfit host nodes before n →
    n ∈ before → g.obstacle n = none → Refuses f g host count nodes (.insertedTwice n)
  | cycle {before : List NodeId} {n : NodeId} : 0 ≤ count → f.FirstUnfit host nodes before n →
    n ∉ before → g.obstacle n = none → Refuses f g host count nodes (.insertCycle n)
  | undescribed {before : List NodeId} {n : NodeId} {e : Fault} : 0 ≤ count →
    f.FirstUnfit host nodes before n → g.obstacle n = some e → Refuses f g host count nodes e

theorem objection_append {before rest seen : List NodeId}
    (h : f.objection host before seen = none) :
    f.objection host (before ++ rest) seen = f.objection host rest (before.reverse ++ seen) := by
  induction before generalizing seen with
  | nil => rfl
  | cons i before ih =>
    rw [objection] at h
    rw [List.cons_append, objection]
    split at h
    · cases h
    · rename_i hs
      rw [if_neg hs]
      split at h
      · cases h
      · rename_i ha
        rw [if_neg ha, ih h, List.reverse_cons, List.append_assoc, List.singleton_append]

theorem exists_of_objection {e : Fault} {seen : List NodeId}
    (h : f.objection host nodes seen = some e) :
    ∃ before n rest, nodes = before ++ n :: rest ∧ f.objection host before seen = none ∧
      (n ∈ before ∨ n ∈ seen ∨ f.isAncestor n host = true) := by
  induction nodes generalizing seen with
  | nil => cases h
  | cons i nodes ih =>
    by_cases hs : seen.contains i = true
    · exact ⟨[], i, nodes, rfl, rfl, .inr (.inl (List.contains_iff_mem.mp hs))⟩
    · by_cases ha : f.isAncestor i host = true
      · exact ⟨[], i, nodes, rfl, rfl, .inr (.inr ha)⟩
      · rw [objection, if_neg hs, if_neg ha] at h
        obtain ⟨before, n, rest, rfl, hb, hn⟩ := ih h
        refine ⟨i :: before, n, rest, rfl, ?_, ?_⟩
        · rw [objection, if_neg hs, if_neg ha, hb]
        · rw [List.mem_cons] at hn ⊢
          tauto

theorem fits_iff_objection (wf : f.WellFormed) (hhost : host < f.size) :
    f.Fits host nodes ↔ f.objection host nodes [] = none := by
  rw [objection_eq_none_iff wf hhost]
  simp [Fits]

theorem exists_firstUnfit (wf : f.WellFormed) (hhost : host < f.size)
    (h : ¬ f.Fits host nodes) : ∃ before n, f.FirstUnfit host nodes before n := by
  rw [fits_iff_objection wf hhost] at h
  obtain ⟨e, he⟩ := Option.ne_none_iff_exists'.mp h
  obtain ⟨before, n, rest, hsplit, hb, hn⟩ := exists_of_objection he
  refine ⟨before, n, ⟨rest, hsplit⟩, (fits_iff_objection wf hhost).mpr hb, ?_⟩
  rcases hn with hn | hn | hn
  · exact .inl hn
  · exact absurd hn List.not_mem_nil
  · exact .inr ((wf.isAncestor_iff hhost).mp hn)

theorem objection_of_firstUnfit (wf : f.WellFormed) (hhost : host < f.size)
    {before : List NodeId} {n : NodeId} (h : f.FirstUnfit host nodes before n) :
    f.objection host nodes [] =
      some (f.refusal n (if n ∈ before then .insertedTwice else .insertCycle)) := by
  obtain ⟨⟨rest, rfl⟩, hfits, hunfit⟩ := h
  rw [objection_append ((fits_iff_objection wf hhost).mp hfits), List.append_nil, objection]
  by_cases hn : n ∈ before
  · rw [if_pos (List.contains_iff_mem.mpr (List.mem_reverse.mpr hn)), if_pos hn]
  · have habove := (wf.isAncestor_iff hhost).mpr (hunfit.resolve_left hn)
    rw [if_neg (fun h => hn (List.mem_reverse.mp (List.contains_iff_mem.mp h))), if_pos habove,
      if_neg hn]

theorem objection_eq_some_iff (wf : f.WellFormed) (hhost : host < f.size) {count : Int}
    (hcount : 0 ≤ count) {e : Fault} :
    f.objection host nodes [] = some e ↔ Refuses f f host count nodes e := by
  constructor
  · intro he
    have hno : ¬ f.Fits host nodes := by
      rw [fits_iff_objection wf hhost, he]
      simp
    obtain ⟨before, n, h⟩ := exists_firstUnfit wf hhost hno
    rw [objection_of_firstUnfit wf hhost h, Option.some.injEq, refusal] at he
    cases hk : f.obstacle n with
    | some e' =>
      rw [hk, Option.getD_some] at he
      rw [← he]
      exact .undescribed hcount h hk
    | none =>
      rw [hk, Option.getD_none] at he
      by_cases hn : n ∈ before
      · rw [if_pos hn] at he
        rw [← he]
        exact .twice hcount h hn hk
      · rw [if_neg hn] at he
        rw [← he]
        exact .cycle hcount h hn hk
  · intro he
    cases he with
    | negative h => exact absurd h (by omega)
    | twice _ h hn hk => simp [objection_of_firstUnfit wf hhost h, refusal, hk, hn]
    | cycle _ h hn hk => simp [objection_of_firstUnfit wf hhost h, refusal, hk, hn]
    | undescribed _ h hk => simp [objection_of_firstUnfit wf hhost h, refusal, hk]

theorem FirstUnfit.not_fits {before : List NodeId} {n : NodeId}
    (h : f.FirstUnfit host nodes before n) : ¬ f.Fits host nodes := by
  obtain ⟨⟨rest, rfl⟩, -, hunfit⟩ := h
  rintro ⟨hnodup, hclear⟩
  rcases hunfit with hn | hn
  · exact (List.nodup_append.mp hnodup).2.2 n hn n List.mem_cons_self rfl
  · exact hclear n (List.mem_append_right _ List.mem_cons_self) hn

theorem exists_refuses_iff (wf : f.WellFormed) (hhost : host < f.size) {count : Int} :
    (∃ e, Refuses f g host count nodes e) ↔ count < 0 ∨ ¬ f.Fits host nodes := by
  constructor
  · rintro ⟨e, h | ⟨-, hu, -, -⟩ | ⟨-, hu, -, -⟩ | ⟨-, hu, -⟩⟩
    · exact .inl h
    · exact .inr hu.not_fits
    · exact .inr hu.not_fits
    · exact .inr hu.not_fits
  · intro h
    by_cases hcount : count < 0
    · exact ⟨_, .negative hcount⟩
    · have hcount' : 0 ≤ count := by omega
      obtain ⟨before, n, hu⟩ := exists_firstUnfit wf hhost (h.resolve_left hcount)
      cases hk : g.obstacle n with
      | some e => exact ⟨e, .undescribed hcount' hu hk⟩
      | none =>
        by_cases hn : n ∈ before
        · exact ⟨_, .twice hcount' hu hn hk⟩
        · exact ⟨_, .cycle hcount' hu hn hk⟩

/-! ### Places -/

def firstPlace (len : Nat) (start : Int) : Int :=
  min (if start < 0 then max (len + start) 0 else start) len

def lastPlace (len : Nat) (start count : Int) : Int := min (firstPlace len start + count) len

theorem startIndex_whole (len : Nat) (start : Int) :
    Value.startIndex len (.whole start) = .ok (firstPlace len start).toNat := by
  rw [Value.startIndex, firstPlace]
  congr 1
  split <;> omega

theorem endIndex_whole (len : Nat) (start : Int) {count : Int} (hcount : 0 ≤ count) :
    Value.endIndex len (firstPlace len start).toNat (.whole count) =
      .ok (lastPlace len start count).toNat := by
  rw [Value.endIndex, lastPlace]
  congr 1
  have hfirst : 0 ≤ firstPlace len start := by
    unfold firstPlace
    split <;> omega
  omega

/-! ### The effect -/

theorem splice_of_neg {start count : Int} {insertions : Value} (hcount : count < 0) :
    f.splice host (.int start) (.int count) insertions =
      (f, .error (.negativeCount (.int count))) := by
  have hneg : Value.Number.isNegative (.whole count) = true := by
    simp [Value.Number.isNegative, hcount]
  unfold splice
  simp only [Value.number?, hneg, if_true]

theorem splice_int {start count : Int} {insertions : Value} (hcount : 0 ≤ count)
    (hrun : f.realizeAll (f.node host).ofClass
      (Blueprint.ofInsertions (f.node host).name insertions) [] = (g, .ok nodes)) :
    f.splice host (.int start) (.int count) insertions =
      match g.objection host nodes [] with
      | some e => (g, .error e)
      | none =>
        let len := (g.children host).length
        let h := g.exchange host (firstPlace len start).toNat (lastPlace len start count).toNat nodes
        (h.1, .ok h.2) := by
  have hneg : Value.Number.isNegative (.whole count) = false := by
    simp [Value.Number.isNegative, hcount]
  cases hobj : g.objection host nodes [] with
  | some e => simp [splice, Value.number?, hneg, hrun, hobj]
  | none =>
    simp [splice, Value.number?, hneg, hrun, hobj, startIndex_whole, endIndex_whole _ _ hcount]

/-- What a splice does to a forest that was there before: `nodes` stand in the place of the
children of `host` from `first` up to `last`. -/
structure Spliced (f h : Forest) (host : NodeId) (first last : Nat) (nodes removed : List NodeId) :
    Prop where
  children_host : h.children host = without ((f.children host).take first) nodes ++ nodes ++
    without ((f.children host).drop last) nodes
  removed_eq : removed = without (((f.children host).drop first).take (last - first)) nodes
  parent_put : ∀ n ∈ nodes, h.parent? n = some host
  parent_removed : ∀ n ∈ removed, h.parent? n = none
  children_other : ∀ p, p < f.size → p ≠ host → h.children p = without (f.children p) nodes
  parent_other : ∀ i, i < f.size → i ∉ nodes → i ∉ removed → h.parent? i = f.parent? i
  holds_eq : ∀ i, i < f.size → h.holds i = f.holds i

theorem spliced_exchange (hg : Grown f g []) (wf : g.WellFormed) (hhost : host < f.size)
    (hnodes : ∀ n ∈ nodes, n < g.size) (first last : Nat) :
    Spliced f (g.exchange host first last nodes).1 host first last nodes
      (g.exchange host first last nodes).2 := by
  have hhost' : host < g.size := Nat.lt_of_lt_of_le hhost hg.size_le
  have hold {i : NodeId} (hi : i < f.size) : g.children i = f.children i := by
    rw [hg.children_eq hi, without_nil]
  have hc := children_exchange wf hhost' first last nodes
  have hp := parent?_exchange wf host first last hnodes
  refine ⟨?_, ?_, ?_, ?_, ?_, ?_, ?_⟩
  · rw [hc, if_pos rfl, exchanged, hold hhost]
  · rw [exchange_snd, window, hold hhost]
  · intro n hn
    have hno : n ∉ (g.exchange host first last nodes).2 := fun h => (mem_without.mp h).2 hn
    rw [hp, if_neg hno, if_pos hn]
  · intro n hn
    rw [hp, if_pos hn]
  · intro p hlt hne
    rw [hc, if_neg hne, hold hlt]
  · intro i hlt hn hr
    rw [hp, if_neg hr, if_neg hn]
    exact hg.parent_eq hlt List.not_mem_nil
  · intro i hlt
    rw [(exchange_views g host first last nodes).2, hg.holds_eq hlt]

theorem Grown.above_iff (hg : Grown f g []) (wf : f.WellFormed) (hhost : host < f.size)
    (n : NodeId) : g.Above n host ↔ f.Above n host := by
  obtain ⟨l, hl⟩ := wf.grounded host
  have hl' : g.Climbs host l :=
    hl.congr fun j hj => hg.parent_eq (wf.lt_size_of_climbs hhost hl hj) List.not_mem_nil
  constructor
  · rintro ⟨k, hk, hn⟩
    rw [hk.unique hl'] at hn
    exact ⟨l, hl, hn⟩
  · rintro ⟨k, hk, hn⟩
    rw [hk.unique hl] at hn
    exact ⟨l, hl', hn⟩

theorem Grown.refuses_iff (hg : Grown f g []) (wf : f.WellFormed) (hhost : host < f.size)
    {count : Int} {e : Fault} :
    Refuses g g host count nodes e ↔ Refuses f g host count nodes e := by
  have hunfit {before : List NodeId} {n : NodeId} :
      g.FirstUnfit host nodes before n ↔ f.FirstUnfit host nodes before n := by
    have habove := hg.above_iff wf hhost
    constructor
    · rintro ⟨hs, ⟨hd, ha⟩, hu⟩
      exact ⟨hs, ⟨hd, fun i hi h => ha i hi ((habove i).mpr h)⟩, hu.imp_right (habove n).mp⟩
    · rintro ⟨hs, ⟨hd, ha⟩, hu⟩
      exact ⟨hs, ⟨hd, fun i hi h => ha i hi ((habove i).mp h)⟩, hu.imp_right (habove n).mpr⟩
  constructor
  · rintro (h | ⟨h, hu, hn, hk⟩ | ⟨h, hu, hn, hk⟩ | ⟨h, hu, hk⟩)
    · exact .negative h
    · exact .twice h (hunfit.mp hu) hn hk
    · exact .cycle h (hunfit.mp hu) hn hk
    · exact .undescribed h (hunfit.mp hu) hk
  · rintro (h | ⟨h, hu, hn, hk⟩ | ⟨h, hu, hn, hk⟩ | ⟨h, hu, hk⟩)
    · exact .negative h
    · exact .twice h (hunfit.mpr hu) hn hk
    · exact .cycle h (hunfit.mpr hu) hn hk
    · exact .undescribed h (hunfit.mpr hu) hk

/-- A splice whose insertions are built fails as `Refuses` says. -/
theorem splice_error_iff (wf : f.WellFormed) (hhost : host < f.size) (u : Underway f g [] [])
    (start count : Int) {insertions : Value}
    (hrun : f.realizeAll (f.node host).ofClass
      (Blueprint.ofInsertions (f.node host).name insertions) [] = (g, .ok nodes)) (e : Fault) :
    (f.splice host (.int start) (.int count) insertions).2 = .error e ↔
      Refuses f g host count nodes e := by
  by_cases hcount : count < 0
  · rw [splice_of_neg hcount]
    constructor
    · intro he
      cases he
      exact .negative hcount
    · intro he
      cases he with
      | negative => rfl
      | twice h | cycle h | undescribed h => omega
  · have hcount' : 0 ≤ count := by omega
    have hhost' : host < g.size := Nat.lt_of_lt_of_le hhost u.size_le
    rw [splice_int hcount' hrun, ← u.toGrown.refuses_iff wf hhost,
      ← objection_eq_some_iff u.wellFormed hhost' hcount']
    cases g.objection host nodes [] <;> simp

/-- A splice whose insertions are built and that does not fail is an exchange. -/
theorem splice_ok {start count : Int} {insertions : Value}
    (hrun : f.realizeAll (f.node host).ofClass
      (Blueprint.ofInsertions (f.node host).name insertions) [] = (g, .ok nodes))
    {after : Forest} {removed : List NodeId}
    (hok : f.splice host (.int start) (.int count) insertions = (after, .ok removed)) :
    (after, removed) = g.exchange host (firstPlace (g.children host).length start).toNat
      (lastPlace (g.children host).length start count).toNat nodes := by
  by_cases hcount : count < 0
  · rw [splice_of_neg hcount] at hok
    cases hok
  · rw [splice_int (by omega) hrun] at hok
    cases hobj : g.objection host nodes [] with
    | some e =>
      rw [hobj] at hok
      cases hok
    | none =>
      rw [hobj] at hok
      cases hok
      rfl

/-- Where kind and name of the first node that does not fit are texts, it is refused. -/
theorem Refuses.of_texts {count : Int} {before : List NodeId} {n : NodeId} (hcount : 0 ≤ count)
    (h : f.FirstUnfit host nodes before n) (hkind : ∃ s, (g.node n).kind = .text s)
    (hname : ∃ s, (g.node n).name = .text s) :
    Refuses f g host count nodes (if n ∈ before then .insertedTwice n else .insertCycle n) := by
  have hnone := obstacle_of_texts hkind hname
  by_cases hn : n ∈ before
  · rw [if_pos hn]
    exact .twice hcount h hn hnone
  · rw [if_neg hn]
    exact .cycle hcount h hn hnone

/-- A splice of whole numbers and items in a reachable forest.  The items become nodes; the
splice fails just where the count is negative, a node comes twice or a node has the host below
it, with the fault that `Refuses` names, which is a refusal of the first such node where its kind
and its name are texts; and else its effect is the one of `Spliced`. -/
theorem Reachable.splice_effect (h : f.Reachable) (hhost : host < f.size) (start count : Int)
    {insertions : Value}
    (hitems : ∀ v ∈ insertions.laidOut, f.IsItem (f.node host).ofClass v) :
    ∃ g nodes, Wraps (f.node host).ofClass f insertions.laidOut g nodes ∧
      ((∃ e, (f.splice host (.int start) (.int count) insertions).2 = .error e) ↔
        count < 0 ∨ ¬ nodes.Nodup ∨ ∃ n ∈ nodes, f.Above n host) ∧
      (∀ e, (f.splice host (.int start) (.int count) insertions).2 = .error e ↔
        Refuses f g host count nodes e) ∧
      (∀ before n, 0 ≤ count → f.FirstUnfit host nodes before n →
        (∃ s, (g.node n).kind = .text s) → (∃ s, (g.node n).name = .text s) →
          (f.splice host (.int start) (.int count) insertions).2 =
            .error (if n ∈ before then .insertedTwice n else .insertCycle n)) ∧
      ∀ after removed, f.splice host (.int start) (.int count) insertions =
          (after, .ok removed) →
        Spliced f after host (firstPlace (f.children host).length start).toNat
          (lastPlace (f.children host).length start count).toNat nodes removed := by
  have wf := h.wellFormed
  obtain ⟨g, nodes, hw, u, -, hlt⟩ := exists_wraps (Underway.start wf (by simp)) hitems wf
  have hrun : f.realizeAll (f.node host).ofClass
      (Blueprint.ofInsertions (f.node host).name insertions) [] = (g, .ok nodes) := by
    rw [ofInsertions_eq _ hitems]
    exact hw.realizeAll []
  have herror := splice_error_iff wf hhost u start count hrun
  refine ⟨g, nodes, hw, ?_, herror, ?_, ?_⟩
  · have hunfit : ¬ f.Fits host nodes ↔ ¬ nodes.Nodup ∨ ∃ n ∈ nodes, f.Above n host := by
      rw [Fits, not_and_or]
      simp only [not_forall, not_not, exists_prop]
    rw [exists_congr herror, exists_refuses_iff wf hhost, hunfit]
  · intro before n hcount h hkind hname
    exact (herror _).mpr (.of_texts hcount h hkind hname)
  · intro after removed hok
    have hx := splice_ok hrun hok
    have hchildren : g.children host = f.children host := by
      rw [u.children_eq hhost, without_nil]
    rw [hchildren] at hx
    have s := spliced_exchange u.toGrown u.wellFormed hhost hlt
      (firstPlace (f.children host).length start).toNat
      (lastPlace (f.children host).length start count).toNat
    rw [← hx] at s
    exact s

def mixedItems : Value :=
  .list [.node 3, .null, .list [.null, .dict [(.text "name", .text "e")]]]

/-- The items put in the place of the last child but one. -/
theorem splice_effect_of_rooted :
    (Forest.empty.afterAll rootedCalls).Reachable ∧
      (∀ v ∈ mixedItems.laidOut, (Forest.empty.afterAll rootedCalls).IsItem .legacy v) ∧
      ∃ g nodes, Wraps .legacy (Forest.empty.afterAll rootedCalls) mixedItems.laidOut g nodes ∧
        ((∃ e, ((Forest.empty.afterAll rootedCalls).splice 0 (.int (-2)) (.int 1)
            mixedItems).2 = .error e) ↔
          (1 : Int) < 0 ∨ ¬ nodes.Nodup ∨
            ∃ n ∈ nodes, (Forest.empty.afterAll rootedCalls).Above n 0) ∧
        (∀ e, ((Forest.empty.afterAll rootedCalls).splice 0 (.int (-2)) (.int 1)
            mixedItems).2 = .error e ↔
          Refuses (Forest.empty.afterAll rootedCalls) g 0 1 nodes e) ∧
        (∀ before n, (0 : Int) ≤ 1 →
          (Forest.empty.afterAll rootedCalls).FirstUnfit 0 nodes before n →
          (∃ s, (g.node n).kind = .text s) → (∃ s, (g.node n).name = .text s) →
            ((Forest.empty.afterAll rootedCalls).splice 0 (.int (-2)) (.int 1) mixedItems).2 =
              .error (if n ∈ before then .insertedTwice n else .insertCycle n)) ∧
        ∀ after removed, (Forest.empty.afterAll rootedCalls).splice 0 (.int (-2)) (.int 1)
            mixedItems = (after, .ok removed) →
          Spliced (Forest.empty.afterAll rootedCalls) after 0 0 1 nodes removed := by
  have reach : (Forest.empty.afterAll rootedCalls).Reachable :=
    ⟨rootedCalls, by decide +kernel, rfl⟩
  have items : ∀ v ∈ mixedItems.laidOut,
      (Forest.empty.afterAll rootedCalls).IsItem .legacy v := by
    intro v hv
    have hv' : v = .node 3 ∨ v = .dict [(.text "name", .text "e")] := by
      simpa [mixedItems, Value.laidOut, Value.openedOnce, Value.orNothing] using hv
    rcases hv' with rfl | rfl
    · show 3 < (Forest.empty.afterAll rootedCalls).size
      decide +kernel
    · exact ⟨by decide +kernel, by decide +kernel⟩
  have legacy : ((Forest.empty.afterAll rootedCalls).node 0).ofClass = .legacy := by
    decide +kernel
  have root : 0 < (Forest.empty.afterAll rootedCalls).size := by decide +kernel
  have kids : (Forest.empty.afterAll rootedCalls).children 0 = [1, 2] := by decide +kernel
  have effect := reach.splice_effect root (-2) 1 (by rw [legacy]; exact items)
  rw [legacy, kids] at effect
  exact ⟨reach, items, effect⟩

def unnamedCalls : List Call :=
  [.wrap (.dict [(.text "type", .text "root"), (.text "children", .list [
    .dict [(.text "type", .list [.text "a"])]])])]

/-- A node whose kind is a list, put in twice: the splice fails, and not with a refusal, for
the node cannot be named in one. -/
theorem splice_of_unnamed_twice :
    (Forest.empty.afterAll unnamedCalls).Reachable ∧
      Wraps .legacy (Forest.empty.afterAll unnamedCalls) (Value.list [.node 1, .node 1]).laidOut
        (Forest.empty.afterAll unnamedCalls) [1, 1] ∧
      ¬ ([1, 1] : List NodeId).Nodup ∧
      ((Forest.empty.afterAll unnamedCalls).splice 0 (.int 0) (.int 0)
        (.list [.node 1, .node 1])).2.mapError Fault.isRefusal = .error false := by
  refine ⟨⟨unnamedCalls, by decide +kernel, rfl⟩, .node (.node .done), by decide, ?_⟩
  decide +kernel

end Forest
end SvgTree
