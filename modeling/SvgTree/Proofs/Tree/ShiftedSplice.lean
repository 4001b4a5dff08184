/-
The children that a splice takes out, where raw nodes among its insertions name others.

Places are counted on the list of the host as it is once the insertions are built.  By then
the nodes that are named inside raw ones have left that list, so the window can lie elsewhere
than it did when the splice was asked for.  It lies where it did if these nodes all stand
behind its end, or before its start where that is counted from the end of the list.
-/
import SvgTree.Proofs.Tree.SpliceEffect

namespace SvgTree

open Blueprint (named namedAll ownFinds findsBelow findsDeeper finds ofInsertions)

namespace Blueprint

/-- The existing nodes that an item names inside raw nodes. -/
def embedded : Blueprint → List NodeId
  | fresh _ items => namedAll items
  | existing _ => []
  | broken _ => []

def itself? : Blueprint → Option NodeId
  | existing i => some i
  | fresh _ _ => none
  | broken _ => none

variable {i : NodeId}

mutual

theorem mem_findsBelow_of_embedded (b : Blueprint) (h : i ∈ b.embedded) :
    Except.ok i ∈ b.findsBelow := by
  cases b with
  | existing j => exact absurd h List.not_mem_nil
  | broken e => exact absurd h List.not_mem_nil
  | fresh fields items =>
    rw [findsBelow, List.mem_append]
    exact mem_finds_of_namedAll items h

theorem mem_finds_of_namedAll (items : List Blueprint) (h : i ∈ namedAll items) :
    Except.ok i ∈ ownFinds items ∨ Except.ok i ∈ findsDeeper items := by
  cases items with
  | nil => exact absurd h List.not_mem_nil
  | cons b rest =>
    rw [namedAll, List.mem_append] at h
    rw [findsDeeper, List.mem_append]
    rcases h with h | h
    · cases b with
      | existing j =>
        rw [named, List.mem_singleton] at h
        rw [h]
        exact .inl List.mem_cons_self
      | broken e => exact absurd h List.not_mem_nil
      | fresh fields inner => exact .inr (.inr (mem_findsBelow_of_embedded (.fresh fields inner) h))
    · rcases mem_finds_of_namedAll rest h with h | h
      · refine .inl ?_
        cases b with
        | existing j => exact List.mem_cons_of_mem _ h
        | broken e => exact List.mem_cons_of_mem _ h
        | fresh fields inner => exact h
      · exact .inr (.inl h)

end

/-- Building comes across all nodes that are named inside raw ones, and across no others. -/
theorem ok_mem_finds_iff {b : Blueprint} : Except.ok i ∈ b.finds ↔ i ∈ b.embedded := by
  cases b with
  | existing j => simp [finds, findsBelow, embedded]
  | broken e => simp [finds, embedded]
  | fresh fields items =>
    refine ⟨fun h => ?_, mem_findsBelow_of_embedded (.fresh fields items)⟩
    have hnamed := mem_named_of_finds h
    rwa [named] at hnamed

end Blueprint

theorem Find.mem_taken_iff {barred : List NodeId} {l : List Find}
    (h : stop? barred l = none) {i : NodeId} : i ∈ taken barred l ↔ Except.ok i ∈ l := by
  refine ⟨ok_mem_of_mem_taken, fun hi => ?_⟩
  induction l with
  | nil => exact absurd hi List.not_mem_nil
  | cons d rest ih =>
    cases d with
    | error e => cases h
    | ok j =>
      rw [stop?] at h
      split at h
      · cases h
      · rename_i hj
        rw [taken, if_neg hj]
        rcases List.mem_cons.mp hi with hi | hi
        · cases hi
          exact List.mem_cons_self
        · exact List.mem_cons_of_mem _ (ih h hi)

namespace Forest

variable {f g after : Forest} {host : NodeId} {nodes removed : List NodeId}

/-! ### Windows -/

def windowOf (l : List NodeId) (start count : Int) : List NodeId :=
  window l (firstPlace l.length start).toNat (lastPlace l.length start count).toNat

section Windows

variable {l took : List NodeId} {start count : Int}

theorem places_le (len : Nat) (start : Int) (hcount : 0 ≤ count) :
    (firstPlace len start).toNat ≤ (lastPlace len start count).toNat := by
  unfold lastPlace firstPlace
  split <;> omega

theorem mem_exchanged_iff {first last : Nat} (hle : first ≤ last) (hl : l.Nodup) {c : NodeId} :
    c ∈ exchanged l first last nodes ↔ c ∈ nodes ∨ (c ∈ l ∧ c ∉ window l first last) := by
  constructor
  · intro h
    by_cases hput : c ∈ nodes
    · exact .inl hput
    · exact .inr (notMem_window_of_mem_exchanged hle hl h hput)
  · intro h
    rw [mem_exchanged]
    by_cases hput : c ∈ nodes
    · exact .inl hput
    · obtain ⟨hc, hout⟩ := h.resolve_left hput
      rw [eq_window l hle, List.mem_append, List.mem_append] at hc
      tauto

theorem window_eq_drop (l : List NodeId) (first last : Nat) :
    window l first last = (l.take last).drop first := by
  rw [window, List.drop_take]

theorem without_append (a b took : List NodeId) :
    without (a ++ b) took = without a took ++ without b took :=
  List.filter_append ..

theorem without_eq_of_notMem (h : ∀ c ∈ took, c ∉ l) : without l took = l :=
  without_eq_self fun c hc htook => h c htook hc

/-- Nodes that stand behind the window leave it where it is, if its start is counted from the
front. -/
theorem windowOf_without_of_behind (hstart : 0 ≤ start) (hcount : 0 ≤ count)
    (h : ∀ c ∈ took, c ∉ l.take (lastPlace l.length start count).toNat) :
    windowOf (without l took) start count = windowOf l start count := by
  by_cases hfit : start + count ≤ l.length
  · -- Both lists begin with what comes up to the end of the window.
    have hplaces (m : List NodeId) (hm : start + count ≤ m.length) :
        firstPlace m.length start = start ∧ lastPlace m.length start count = start + count := by
      unfold lastPlace firstPlace
      split <;> omega
    obtain ⟨-, hlast⟩ := hplaces l hfit
    rw [hlast] at h
    have hlength : (l.take (start + count).toNat).length = (start + count).toNat := by
      rw [List.length_take]
      omega
    have hsplit : without l took =
        l.take (start + count).toNat ++ without (l.drop (start + count).toNat) took := by
      conv_lhs => rw [← List.take_append_drop (start + count).toNat l]
      rw [without_append, without_eq_of_notMem h]
    have hleft : start + count ≤ (without l took).length := by
      rw [hsplit, List.length_append, hlength]
      omega
    rw [windowOf, windowOf, (hplaces _ hleft).1, (hplaces _ hleft).2, (hplaces _ hfit).1, hlast,
      window_eq_drop, window_eq_drop, hsplit, List.take_left' hlength]
  · have hlast : (lastPlace l.length start count).toNat = l.length := by
      unfold lastPlace firstPlace
      split <;> omega
    rw [hlast, List.take_length] at h
    rw [without_eq_of_notMem h]

/-- Nodes that stand before the window leave it where it is, if its start is counted from the
end. -/
theorem windowOf_without_of_before (hstart : start < 0) (hcount : 0 ≤ count)
    (h : ∀ c ∈ took, c ∉ l.drop (firstPlace l.length start).toNat) :
    windowOf (without l took) start count = windowOf l start count := by
  by_cases hfit : 0 ≤ l.length + start
  · -- Both lists end with what comes from the start of the window on.
    have hwindow (a b : List NodeId) (hb : (b.length : Int) = - start) :
        windowOf (a ++ b) start count = b.take (min count.toNat b.length) := by
      have hfirst : (firstPlace (a ++ b).length start).toNat = a.length := by
        rw [firstPlace, if_pos hstart, List.length_append]
        omega
      have hlast : (lastPlace (a ++ b).length start count).toNat - a.length =
          min count.toNat b.length := by
        rw [lastPlace, firstPlace, if_pos hstart, List.length_append]
        omega
      rw [windowOf, window, hfirst, hlast, List.drop_left]
    have hfirst : firstPlace l.length start = l.length + start := by
      rw [firstPlace, if_pos hstart]
      omega
    rw [hfirst] at h
    have hlength : ((l.drop (l.length + start).toNat).length : Int) = - start := by
      rw [List.length_drop]
      omega
    conv_lhs => rw [← List.take_append_drop (l.length + start).toNat l]
    conv_rhs => rw [← List.take_append_drop (l.length + start).toNat l]
    rw [without_append, without_eq_of_notMem h, hwindow _ _ hlength, hwindow _ _ hlength]
  · have hfirst : (firstPlace l.length start).toNat = 0 := by
      rw [firstPlace, if_pos hstart]
      omega
    rw [hfirst, List.drop_zero] at h
    rw [without_eq_of_notMem h]

end Windows

/-! ### The window of a splice -/

def putIn (f : Forest) (host : NodeId) (insertions : Value) : List NodeId :=
  (ofInsertions (f.node host).name insertions).filterMap Blueprint.itself?

def wrappedIn (f : Forest) (host : NodeId) (insertions : Value) : List NodeId :=
  (ofInsertions (f.node host).name insertions).flatMap Blueprint.embedded

/-- The window of a splice, on the list that is left once its insertions are built. -/
def lateWindow (f : Forest) (host : NodeId) (start count : Int) (insertions : Value) :
    List NodeId :=
  windowOf (without (f.children host) (f.wrappedIn host insertions)) start count

/-- An old node is among the nodes that the items became just if it is put in itself. -/
theorem mem_became_iff {items : List Blueprint} (h : List.Forall₂ (Became f g) items nodes)
    {c : NodeId} (hc : c < f.size) :
    c ∈ nodes ↔ c ∈ items.filterMap Blueprint.itself? := by
  induction h with
  | nil => exact Iff.rfl
  | @cons b n items nodes hb _ ih =>
    rw [List.mem_cons, ih]
    cases b with
    | existing i =>
      have hn : n = i := hb
      rw [hn, List.filterMap_cons_some (by rw [Blueprint.itself?]), List.mem_cons]
    | fresh fields inner =>
      rw [List.filterMap_cons_none (by rw [Blueprint.itself?])]
      exact or_iff_right fun hcn => absurd hc (Nat.not_lt.mpr (hcn ▸ hb.1))
    | broken e =>
      rw [List.filterMap_cons_none (by rw [Blueprint.itself?])]
      exact or_iff_right fun hcn => absurd hc (Nat.not_lt.mpr (hcn ▸ hb.1))

/-- A splice of whole numbers that does not fail has built its insertions without a stop, and
then exchanged children. -/
theorem exists_exchange (wf : f.WellFormed) (hhost : host < f.size) {start count : Int}
    {insertions : Value} (hn : f.NamesExisting host insertions)
    (hok : f.splice host (.int start) (.int count) insertions = (after, .ok removed)) :
    0 ≤ count ∧ ∃ g nodes, g.WellFormed ∧ host < g.size ∧
      g.children host = without (f.children host) (f.wrappedIn host insertions) ∧
      List.Forall₂ (Became f g) (ofInsertions (f.node host).name insertions) nodes ∧
      (after, removed) = g.exchange host (firstPlace (g.children host).length start).toNat
        (lastPlace (g.children host).length start count).toNat nodes := by
  by_cases hcount : count < 0
  · rw [splice_of_neg hcount] at hok
    cases hok
  · obtain ⟨g, u, x⟩ := realizeAll_spec (Underway.start wf (by simp)) (f.node host).ofClass hn []
    refine ⟨by omega, g, ?_⟩
    cases hstop : Find.stop? []
        ((ofInsertions (f.node host).name insertions).flatMap finds) with
    | some d =>
      have hrun := x.stopped d hstop
      have hneg : Value.Number.isNegative (.whole count) = false := by
        simp [Value.Number.isNegative, hcount]
      simp [splice, Value.number?, hneg, hrun] at hok
    | none =>
      obtain ⟨nodes, hrun, hmade⟩ := x.built hstop
      rw [List.reverse_nil, List.nil_append] at hrun
      refine ⟨nodes, u.wellFormed, Nat.lt_of_lt_of_le hhost x.le, ?_, hmade, splice_ok hrun hok⟩
      rw [u.children_eq hhost, List.nil_append]
      refine without_congr fun c _ => ?_
      rw [Find.mem_taken_iff hstop, List.mem_flatMap, wrappedIn, List.mem_flatMap]
      simp only [Blueprint.ok_mem_finds_iff]

/-- What a splice takes out of the children of its host, and which of them stay. -/
theorem splice_fates (wf : f.WellFormed) (hhost : host < f.size) {start count : Int}
    {insertions : Value} (hn : f.NamesExisting host insertions)
    (hok : f.splice host (.int start) (.int count) insertions = (after, .ok removed)) :
    removed = without (f.lateWindow host start count insertions) (f.putIn host insertions) ∧
      ∀ c ∈ f.children host, c ∈ after.children host ↔ c ∈ f.putIn host insertions ∨
        (c ∉ f.wrappedIn host insertions ∧ c ∉ f.lateWindow host start count insertions) := by
  obtain ⟨hcount, g, nodes, wf', hhost', hleft, hmade, heq⟩ := exists_exchange wf hhost hn hok
  have hafter : after = _ := congrArg Prod.fst heq
  have hremoved : removed = _ := congrArg Prod.snd heq
  have hput {c : NodeId} (hc : c ∈ f.children host) : c ∈ nodes ↔ c ∈ f.putIn host insertions :=
    mem_became_iff hmade (wf.child_lt hc)
  have hwindow : window (g.children host) (firstPlace (g.children host).length start).toNat
      (lastPlace (g.children host).length start count).toNat =
        f.lateWindow host start count insertions := by
    rw [hleft, lateWindow, windowOf]
  refine ⟨?_, fun c hc => ?_⟩
  · rw [exchange_snd, hwindow] at hremoved
    rw [hremoved]
    exact without_congr fun c hc => hput (mem_without.mp (mem_of_mem_window hc)).1
  · have hchildren := children_exchange wf' hhost' (firstPlace (g.children host).length start).toNat
      (lastPlace (g.children host).length start count).toNat nodes host
    rw [← hafter, if_pos rfl] at hchildren
    rw [hchildren, mem_exchanged_iff (places_le _ start hcount) (wf'.once host), hwindow, hleft,
      mem_without, hput hc]
    tauto

/-- Whether a splice takes out no other nodes than those it was asked to. -/
def KeepsWindow (f : Forest) (host : NodeId) (start count : Int) (insertions : Value) : Prop :=
  ∀ c ∈ f.lateWindow host start count insertions,
    c ∈ f.putIn host insertions ∨ c ∈ windowOf (f.children host) start count

/-- A splice of whole numbers that does not fail takes out the nodes of the window on the list
that is left once its insertions are built.  That these were in the window as it was before,
and that the children outside that window stay which are neither put in nor named inside raw
nodes, come to the same.  The windows are one where all that is named inside raw nodes stands
behind the window, or before it where the start is negative.  As in building, no list of children
inside a raw node is that of an old node. -/
theorem Reachable.splice_window (h : f.Reachable) (hhost : host < f.size) {start count : Int}
    {insertions : Value} (hn : f.NamesExisting host insertions)
    (hok : f.splice host (.int start) (.int count) insertions = (after, .ok removed)) :
    removed = without (f.lateWindow host start count insertions) (f.putIn host insertions) ∧
      (∀ c ∈ f.children host, c ∈ after.children host ↔ c ∈ f.putIn host insertions ∨
        (c ∉ f.wrappedIn host insertions ∧ c ∉ f.lateWindow host start count insertions)) ∧
      ((∀ n ∈ removed, n ∈ windowOf (f.children host) start count) ↔
        f.KeepsWindow host start count insertions) ∧
      ((∀ c ∈ f.children host, c ∉ windowOf (f.children host) start count →
        c ∉ f.putIn host insertions → c ∉ f.wrappedIn host insertions →
          c ∈ after.children host) ↔ f.KeepsWindow host start count insertions) ∧
      (((0 ≤ start ∧ ∀ c ∈ f.wrappedIn host insertions,
          c ∉ (f.children host).take (lastPlace (f.children host).length start count).toNat) ∨
        (start < 0 ∧ ∀ c ∈ f.wrappedIn host insertions,
          c ∉ (f.children host).drop (firstPlace (f.children host).length start).toNat)) →
        f.lateWindow host start count insertions = windowOf (f.children host) start count) := by
  have hcount := (exists_exchange h.wellFormed hhost hn hok).1
  obtain ⟨hremoved, hfate⟩ := splice_fates h.wellFormed hhost hn hok
  have hlate {c : NodeId} (hc : c ∈ f.lateWindow host start count insertions) :
      c ∈ f.children host ∧ c ∉ f.wrappedIn host insertions :=
    mem_without.mp (mem_of_mem_window hc)
  refine ⟨hremoved, hfate, ?_, ?_, ?_⟩
  · rw [hremoved]
    refine forall_congr' fun c => ?_
    rw [mem_without]
    tauto
  · constructor
    · intro hstay c hc
      refine Classical.byContradiction fun hno => ?_
      obtain ⟨hput, hout⟩ := not_or.mp hno
      obtain ⟨hchild, hw⟩ := hlate hc
      rcases (hfate c hchild).mp (hstay c hchild hout hput hw) with h | h
      · exact hput h
      · exact h.2 hc
    · intro hkeep c hchild hout hput hw
      refine (hfate c hchild).mpr (.inr ⟨hw, fun hc => ?_⟩)
      exact (hkeep c hc).elim hput hout
  · rintro (⟨hstart, hbehind⟩ | ⟨hstart, hbefore⟩)
    · exact windowOf_without_of_behind hstart hcount hbehind
    · exact windowOf_without_of_before hstart hcount hbefore

def wrapper (i : NodeId) : Value :=
  .list [.dict [(.text "name", .text "g"), (.text "children", .list [.node i])]]

/-- With the second child asked for and the third wrapped, the second is taken out. -/
theorem splice_window_of_row :
    (Forest.empty.afterAll rowCalls).Reachable ∧
      (Forest.empty.afterAll rowCalls).NamesExisting 0 (wrapper 3) ∧
      ∃ after removed, (Forest.empty.afterAll rowCalls).splice 0 (.int 1) (.int 1) (wrapper 3) =
          (after, .ok removed) ∧
        removed = [2] ∧
        (∀ n ∈ removed, n ∈ windowOf ((Forest.empty.afterAll rowCalls).children 0) 1 1) ∧
        1 ∈ after.children 0 := by
  have reach : (Forest.empty.afterAll rowCalls).Reachable := ⟨rowCalls, by decide +kernel, rfl⟩
  have names : (Forest.empty.afterAll rowCalls).NamesExisting 0 (wrapper 3) := by decide +kernel
  have root : 0 < (Forest.empty.afterAll rowCalls).size := by decide +kernel
  have keeps : (Forest.empty.afterAll rowCalls).KeepsWindow 0 1 1 (wrapper 3) := by
    unfold KeepsWindow
    decide +kernel
  have ends : ((Forest.empty.afterAll rowCalls).splice 0 (.int 1) (.int 1) (wrapper 3)).2.isOk =
      true := by
    decide +kernel
  cases hrun : ((Forest.empty.afterAll rowCalls).splice 0 (.int 1) (.int 1) (wrapper 3)).2 with
  | error e =>
    rw [hrun] at ends
    cases ends
  | ok removed =>
    obtain ⟨hremoved, hfate, hasked, -, -⟩ := reach.splice_window root names (Prod.ext rfl hrun)
    have hlate : without ((Forest.empty.afterAll rowCalls).lateWindow 0 1 1 (wrapper 3))
        ((Forest.empty.afterAll rowCalls).putIn 0 (wrapper 3)) = [2] := by
      decide +kernel
    exact ⟨reach, names, _, removed, Prod.ext rfl hrun, hremoved.trans hlate, hasked.mpr keeps,
      (hfate 1 (by decide +kernel)).mpr (by decide +kernel)⟩

/-- With the second child asked for and the first wrapped, the third is taken out and the
second stays. -/
theorem splice_window_shifts :
    (Forest.empty.afterAll rowCalls).Reachable ∧
      (Forest.empty.afterAll rowCalls).NamesExisting 0 (wrapper 1) ∧
      (Forest.empty.afterAll rowCalls).children 0 = [1, 2, 3] ∧
      windowOf [1, 2, 3] 1 1 = [2] ∧
      ((Forest.empty.afterAll rowCalls).splice 0 (.int 1) (.int 1) (wrapper 1)).2.toOption =
        some [3] ∧
      ((Forest.empty.afterAll rowCalls).splice 0 (.int 1) (.int 1) (wrapper 1)).1.children 0 =
        [2, 4] := by
  refine ⟨⟨rowCalls, by decide +kernel, rfl⟩, ?_⟩
  decide +kernel

end Forest
end SvgTree
