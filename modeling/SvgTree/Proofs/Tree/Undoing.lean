/-
A splice that undoes a splice.

Nodes without a parent stand on no list, so to put them into the place of some children moves
nothing else.  The second splice takes just these nodes out again, from the place where the
first one cut the list open, and puts the children back that the first one gave.  Nothing that
stands above the host was moved in between, so the second splice has nothing to object, and
what it leaves is the forest that was there at the start.
-/
import SvgTree.Proofs.Tree.ShiftedSplice

namespace SvgTree

open Blueprint (ofInsertions)

namespace Forest

variable {f : Forest} {host : NodeId} {nodes l : List NodeId} {first last : Nat}

/-! ### Lists -/

theorem exchanged_of_disjoint (hn : ∀ n ∈ nodes, n ∉ l) :
    exchanged l first last nodes = l.take first ++ (nodes ++ l.drop last) := by
  have hkept {k : List NodeId} (hk : ∀ c ∈ k, c ∈ l) : without k nodes = k :=
    without_eq_self fun c hc hcn => hn c hcn (hk c hc)
  rw [exchanged, hkept fun c hc => List.mem_of_mem_take hc,
    hkept fun c hc => List.mem_of_mem_drop hc, List.append_assoc]

theorem window_exchanged (hfirst : first ≤ l.length) (hn : ∀ n ∈ nodes, n ∉ l) :
    window (exchanged l first last nodes) first (first + nodes.length) = nodes := by
  have hlen : (l.take first).length = first := List.length_take_of_le hfirst
  rw [exchanged_of_disjoint hn, window, Nat.add_sub_cancel_left, List.drop_left' hlen,
    List.take_left' rfl]

theorem exchanged_exchanged (hfirst : first ≤ l.length) (hle : first ≤ last) (hl : l.Nodup)
    (hn : ∀ n ∈ nodes, n ∉ l) :
    exchanged (exchanged l first last nodes) first (first + nodes.length) (window l first last) =
      l := by
  have hlen : (l.take first).length = first := List.length_take_of_le hfirst
  have hsplit := eq_window l hle
  have hdisjoint := hl
  rw [hsplit, List.nodup_append, List.nodup_append] at hdisjoint
  obtain ⟨-, ⟨-, -, hback⟩, hfront⟩ := hdisjoint
  have hbefore : without (l.take first) (window l first last) = l.take first :=
    without_eq_self fun c hc hw => hfront c hc c (List.mem_append_left _ hw) rfl
  have hafter : without (l.drop last) (window l first last) = l.drop last :=
    without_eq_self fun c hc hw => hback c hw c hc rfl
  rw [exchanged_of_disjoint hn, exchanged, List.take_left' hlen, ← List.drop_drop,
    List.drop_left' hlen, List.drop_left' rfl, hbefore, hafter, List.append_assoc]
  exact hsplit.symm

/-! ### Exchanges -/

theorem notMem_children_of_free (wf : f.WellFormed) (hfree : ∀ n ∈ nodes, f.parent? n = none)
    (p : NodeId) : ∀ n ∈ nodes, n ∉ f.children p := by
  intro n hn hmem
  have hparent := wf.held hmem
  rw [hfree n hn] at hparent
  cases hparent

theorem exchange_snd_of_free (wf : f.WellFormed) (hfree : ∀ n ∈ nodes, f.parent? n = none) :
    (f.exchange host first last nodes).2 = window (f.children host) first last := by
  rw [exchange_snd]
  exact without_eq_self fun c hc hcn =>
    notMem_children_of_free wf hfree host c hcn (mem_of_mem_window hc)

/-- What stands above the host is as it was, so the children that were taken out can be put
back. -/
theorem fits_after_exchange (wf : f.WellFormed) (hlt : ∀ n ∈ nodes, n < f.size)
    (hfree : ∀ n ∈ nodes, f.parent? n = none) (hclear : ∀ n ∈ nodes, ¬ f.Above n host) :
    (f.exchange host first last nodes).1.Fits host (window (f.children host) first last) := by
  have hp := parent?_exchange wf host first last hlt
  obtain ⟨k, hk⟩ := wf.grounded host
  have hclimb : (f.exchange host first last nodes).1.Climbs host k := by
    refine hk.congr fun j hj => ?_
    have hput : j ∉ nodes := fun h => hclear j h ⟨k, hk, hj⟩
    have hout : j ∉ (f.exchange host first last nodes).2 := by
      rw [exchange_snd_of_free wf hfree]
      exact fun h => wf.not_above_of_mem_children (mem_of_mem_window h) ⟨k, hk, hj⟩
    rw [hp, if_neg hout, if_neg hput]
  refine ⟨(wf.once host).sublist ((List.take_sublist _ _).trans (List.drop_sublist _ _)), ?_⟩
  rintro n hn ⟨m, hm, hmem⟩
  rw [hm.unique hclimb] at hmem
  exact wf.not_above_of_mem_children (mem_of_mem_window hn) ⟨k, hk, hmem⟩

/-- To exchange back what was exchanged gives the forest that was there. -/
theorem exchange_exchange (wf : f.WellFormed) (hhost : host < f.size)
    (hfirst : first ≤ (f.children host).length) (hle : first ≤ last)
    (hlt : ∀ n ∈ nodes, n < f.size) (hnodup : nodes.Nodup)
    (hfree : ∀ n ∈ nodes, f.parent? n = none) (hclear : ∀ n ∈ nodes, ¬ f.Above n host) :
    (f.exchange host first last nodes).1.exchange host first (first + nodes.length)
        (window (f.children host) first last) = (f, nodes) := by
  let removed := window (f.children host) first last
  let g := (f.exchange host first last nodes).1
  have wg : g.WellFormed := wellFormed_exchange wf hle hhost hlt hnodup hclear
  have hoff := notMem_children_of_free wf hfree
  have hremoved : (f.exchange host first last nodes).2 = removed := exchange_snd_of_free wf hfree
  have hheld : ∀ i ∈ removed, i ∈ f.children host := fun i hi => mem_of_mem_window hi
  obtain ⟨hsize, hholds⟩ := exchange_views f host first last nodes
  have hchildren : g.children host = exchanged (f.children host) first last nodes := by
    rw [children_exchange wf hhost, if_pos rfl]
  have hback : (g.exchange host first (first + nodes.length) removed).2 = nodes := by
    rw [exchange_snd, hchildren, window_exchanged hfirst (hoff host)]
    exact without_eq_self fun n hn hr => hoff host n hn (hheld n hr)
  refine Prod.ext (ext_node? fun i => node?_congr ?_ ?_ ?_) hback
  · rw [(exchange_views ..).2, hholds]
  · have hparent : g.parent? i =
        if i ∈ removed then none else if i ∈ nodes then some host else f.parent? i := by
      rw [parent?_exchange wf host first last hlt, hremoved]
    rw [parent?_exchange wg host _ _ fun j hj => hsize ▸ wf.child_lt (hheld j hj), hback, hparent]
    by_cases hn : i ∈ nodes
    · rw [if_pos hn, hfree i hn]
    · by_cases hr : i ∈ removed
      · rw [if_neg hn, if_pos hr, wf.held (hheld i hr)]
      · rw [if_neg hn, if_neg hr, if_neg hr, if_neg hn]
  · rw [children_exchange wg (hsize ▸ hhost), hchildren]
    by_cases hi : i = host
    · rw [if_pos hi, hi]
      exact exchanged_exchanged hfirst hle (wf.once host) (hoff host)
    · rw [if_neg hi, children_exchange wf hhost, if_neg hi, without_without, without_eq_self]
      intro c hc hput
      rcases List.mem_append.mp hput with hn | hr
      · exact hoff i c hn hc
      · exact hi (wf.eq_of_mem_children hc (hheld c hr))

/-! ### Splices -/

theorem ofInsertions_nodes (name : Value) (nodes : List NodeId) :
    ofInsertions name (.list (nodes.map .node)) = nodes.map .existing := by
  rw [ofInsertions, List.flatMap_map, List.map_eq_flatMap]
  rfl

theorem realizeAll_existing (f : Forest) (ofClass : NodeClass) (nodes done : List NodeId) :
    f.realizeAll ofClass (nodes.map .existing) done = (f, .ok (done.reverse ++ nodes)) := by
  induction nodes generalizing done with
  | nil => rw [List.append_nil]; rfl
  | cons n rest ih =>
    rw [List.map_cons, realizeAll, ih, List.reverse_cons, List.append_assoc,
      List.singleton_append]

theorem splice_nodes (wf : f.WellFormed) (hhost : host < f.size) (hfits : f.Fits host nodes)
    (start : Int) {count : Int} (hcount : 0 ≤ count) :
    f.splice host (.int start) (.int count) (.list (nodes.map .node)) =
      ((f.exchange host (firstPlace (f.children host).length start).toNat
          (lastPlace (f.children host).length start count).toNat nodes).1,
        .ok (f.exchange host (firstPlace (f.children host).length start).toNat
          (lastPlace (f.children host).length start count).toNat nodes).2) := by
  have hrun : f.realizeAll (f.node host).ofClass
      (ofInsertions (f.node host).name (.list (nodes.map .node))) [] = (f, .ok nodes) := by
    rw [ofInsertions_nodes, realizeAll_existing]
    rfl
  rw [splice_int hcount hrun, (fits_iff_objection wf hhost).mp hfits]

theorem exists_places (len : Nat) (start : Int) {count : Int} (hcount : 0 ≤ count) :
    ∃ first last : Nat, firstPlace len start = first ∧ lastPlace len start count = last ∧
      first ≤ len ∧ first ≤ last := by
  have hon : 0 ≤ firstPlace len start ∧ firstPlace len start ≤ len := by
    unfold firstPlace
    split <;> omega
  refine ⟨(firstPlace len start).toNat, (lastPlace len start count).toNat, by omega, ?_, by omega,
    places_le len start hcount⟩
  unfold lastPlace
  omega

/-- A place on the list is read as it stands, and so is the end of a run that the list has room
for. -/
theorem places_of_le {len place run : Nat} (h : place + run ≤ len) :
    (firstPlace len place).toNat = place ∧ (lastPlace len place run).toNat = place + run := by
  unfold lastPlace firstPlace
  rw [if_neg (by omega)]
  omega

/-- In a reachable forest a splice that puts in distinct nodes without a parent, none of which
has the host below it, goes through; and a second one, which puts the nodes that it gave back at
the clamped start in the place of those that it put in, goes through as well, gives just these,
and leaves the forest as it was before the first. -/
theorem Reachable.splice_undone (h : f.Reachable) (hhost : host < f.size) (start : Int)
    {count : Int} (hcount : 0 ≤ count) (hlt : ∀ n ∈ nodes, n < f.size) (hnodup : nodes.Nodup)
    (hfree : ∀ n ∈ nodes, f.parent? n = none) (hclear : ∀ n ∈ nodes, ¬ f.Above n host) :
    ∃ g removed,
      f.splice host (.int start) (.int count) (.list (nodes.map .node)) = (g, .ok removed) ∧
        g.splice host (.int (firstPlace (f.children host).length start)) (.int nodes.length)
          (.list (removed.map .node)) = (f, .ok nodes) := by
  have wf := h.wellFormed
  have hsplice := splice_nodes wf hhost ⟨hnodup, hclear⟩ start hcount
  obtain ⟨first, last, hplace, hstop, hfirst, hle⟩ :=
    exists_places (f.children host).length start hcount
  rw [hplace, hstop, Int.toNat_natCast, Int.toNat_natCast, exchange_snd_of_free wf hfree] at hsplice
  refine ⟨_, _, hsplice, ?_⟩
  have wg : (f.exchange host first last nodes).1.WellFormed :=
    wellFormed_exchange wf hle hhost hlt hnodup hclear
  have hhost' : host < (f.exchange host first last nodes).1.size := by
    rwa [(exchange_views ..).1]
  have hroom : first + nodes.length ≤
      ((f.exchange host first last nodes).1.children host).length := by
    rw [children_exchange wf hhost, if_pos rfl,
      exchanged_of_disjoint (notMem_children_of_free wf hfree host), List.length_append,
      List.length_take_of_le hfirst, List.length_append]
    omega
  obtain ⟨hput, hend⟩ := places_of_le hroom
  rw [hplace, splice_nodes wg hhost' (fits_after_exchange wf hlt hfree hclear) _ (by omega), hput,
    hend, exchange_exchange wf hhost hfirst hle hlt hnodup hfree hclear]

def prunedCalls : List Call := rootedCalls ++ [.detach 1]

/-- The part that was taken out put in the place of all that the root still holds, from a start
before the list and for more children than there are, and out of it again. -/
theorem splice_undone_of_pruned :
    (Forest.empty.afterAll prunedCalls).Reachable ∧
      (Forest.empty.afterAll prunedCalls).children 0 = [2] ∧
      (Forest.empty.afterAll prunedCalls).children 1 = [3] ∧
      ∃ g, (Forest.empty.afterAll prunedCalls).splice 0 (.int (-5)) (.int 7) (.list [.node 1]) =
          (g, .ok [2]) ∧
        g.children 0 = [1] ∧
        g.splice 0 (.int 0) (.int 1) (.list [.node 2]) =
          (Forest.empty.afterAll prunedCalls, .ok [1]) := by
  have reach : (Forest.empty.afterAll prunedCalls).Reachable :=
    ⟨prunedCalls, by decide +kernel, rfl⟩
  have kids : (Forest.empty.afterAll prunedCalls).children 0 = [2] := by decide +kernel
  have host : 0 < (Forest.empty.afterAll prunedCalls).size := by decide +kernel
  have more : (0 : Int) ≤ 7 := by decide
  have known : ∀ n ∈ [1], n < (Forest.empty.afterAll prunedCalls).size := by decide +kernel
  have free : ∀ n ∈ [1], (Forest.empty.afterAll prunedCalls).parent? n = none := by
    decide +kernel
  have clear : ∀ n ∈ [1], ¬ (Forest.empty.afterAll prunedCalls).Above n 0 := by
    intro n hn
    rw [List.mem_singleton.mp hn, ← reach.wellFormed.isAncestor_iff host]
    decide +kernel
  obtain ⟨g, removed, hdone, hundone⟩ :=
    reach.splice_undone host (-5) more known (List.nodup_singleton 1) free clear
  have run : ((Forest.empty.afterAll prunedCalls).splice 0 (.int (-5)) (.int 7)
      (.list [.node 1])).2.toOption = some [2] := by
    decide +kernel
  have list : ((Forest.empty.afterAll prunedCalls).splice 0 (.int (-5)) (.int 7)
      (.list [.node 1])).1.children 0 = [1] := by
    decide +kernel
  rw [List.map_singleton] at hdone
  rw [hdone] at run list
  obtain rfl : removed = [2] := Option.some.inj run
  rw [kids] at hundone
  exact ⟨reach, kids, by decide +kernel, g, hdone, list, hundone⟩

end Forest
end SvgTree
