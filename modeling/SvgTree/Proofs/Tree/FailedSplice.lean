/-
What a splice that fails leaves behind.

Insertions are built before they are checked, and building takes the nodes that stand inside
raw ones.  So a splice that fails later has moved these already.  It changes nothing else:
the nodes that it took are the whole difference, and the forest is as it was just when it took
none.
-/
import SvgTree.Proofs.Reachable

namespace SvgTree

open Blueprint (named finds)

namespace Forest

variable {f g : Forest}

theorem lt_size_of_mem_spliceTakes {host : NodeId} {count insertions : Value}
    (hn : f.NamesExisting host insertions) {i : NodeId}
    (hi : i ∈ f.spliceTakes host count insertions) : i < f.size := by
  unfold spliceTakes at hi
  split at hi
  · exact absurd hi List.not_mem_nil
  · obtain ⟨b, hb, hib⟩ := List.mem_flatMap.mp (Find.ok_mem_of_mem_taken hi)
    exact hn b hb i (Blueprint.mem_named_of_finds hib)

/-- The old nodes are all as they were just when none was taken: a node that was taken has a
new node for its parent now, and had none before. -/
theorem Grown.unchanged_iff (wf : f.WellFormed) {took : List NodeId} (hg : Grown f g took)
    (ht : ∀ i ∈ took, i < f.size) :
    (∀ i, i < f.size → g.node? i = f.node? i) ↔ took = [] := by
  constructor
  · intro h
    refine List.eq_nil_iff_forall_not_mem.mpr fun i hi => ?_
    have hlt := ht i hi
    obtain ⟨p, hnew, hp⟩ := hg.parent_took hlt hi
    have hold : f.parent? i = some p := by
      rw [← hp, parent?, parent?, h i hlt]
    exact absurd (wf.parent_lt hold) (Nat.not_lt.mpr hnew)
  · rintro rfl i hi
    refine node?_congr (hg.holds_eq hi) (hg.parent_eq hi List.not_mem_nil) ?_
    rw [hg.children_eq hi, without_nil]

/-- In a splice that fails on a reachable forest the old nodes keep all they hold, those that
were taken while the insertions were built stand under new nodes and on no old list, and
everything is as it was before just when none was taken.  The lists of children inside the raw
nodes that are inserted are lists of their own, and no old node's. -/
theorem Reachable.failed_splice (h : f.Reachable) {host : NodeId} (hhost : host < f.size)
    {start count insertions : Value} (hn : f.NamesExisting host insertions) {e : Fault}
    (hrun : f.splice host start count insertions = (g, .error e)) :
    Grown f g (f.spliceTakes host count insertions) ∧
      ((∀ i, i < f.size → g.node? i = f.node? i) ↔
        f.spliceTakes host count insertions = []) := by
  have wf := h.wellFormed
  obtain ⟨g', u, ⟨e', h'⟩ | x⟩ := splice_cases wf hhost start count hn
  · rw [hrun] at h'
    have hg : g = g' := congrArg Prod.fst h'
    subst hg
    exact ⟨u.toGrown, u.toGrown.unchanged_iff wf fun i hi => lt_size_of_mem_spliceTakes hn hi⟩
  · have hx := x.eq
    rw [hrun] at hx
    exact absurd (congrArg Prod.snd hx) (by simp)

def wrapThenFail : Value := .list [.dict [(.text "children", .list [.node 1])], .int 5]

/-- A splice that fails at its second item keeps the node that it wrapped for the first. -/
theorem failed_splice_of_rooted :
    (Forest.empty.afterAll rootedCalls).spliceTakes 0 (.int 0) wrapThenFail = [1] ∧
      Grown (Forest.empty.afterAll rootedCalls)
        ((Forest.empty.afterAll rootedCalls).splice 0 (.int 0) (.int 0) wrapThenFail).1 [1] := by
  have reach : (Forest.empty.afterAll rootedCalls).Reachable :=
    ⟨rootedCalls, by decide +kernel, rfl⟩
  have takes : (Forest.empty.afterAll rootedCalls).spliceTakes 0 (.int 0) wrapThenFail = [1] := by
    decide +kernel
  have fails : ((Forest.empty.afterAll rootedCalls).splice 0 (.int 0) (.int 0)
      wrapThenFail).2.isOk = false := by
    decide +kernel
  cases he : ((Forest.empty.afterAll rootedCalls).splice 0 (.int 0) (.int 0) wrapThenFail).2 with
  | ok removed =>
    rw [he] at fails
    cases fails
  | error e =>
    have hg := (reach.failed_splice (by decide +kernel) (by decide +kernel)
      (Prod.ext rfl he)).1
    rw [takes] at hg
    exact ⟨takes, hg⟩

/-- That splice is refused, and yet the root has lost a child. -/
theorem failed_splice_moves :
    (Forest.empty.afterAll rootedCalls).Reachable ∧
      (((Forest.empty.afterAll rootedCalls).splice 0 (.int 0) (.int 0) wrapThenFail).2.mapError
        Fault.isRefusal) = .error true ∧
      (Forest.empty.afterAll rootedCalls).children 0 = [1, 2] ∧
      (Forest.empty.afterAll rootedCalls).parent? 1 = some 0 ∧
      ((Forest.empty.afterAll rootedCalls).splice 0 (.int 0) (.int 0) wrapThenFail).1.children 0 =
        [2] ∧
      ((Forest.empty.afterAll rootedCalls).splice 0 (.int 0) (.int 0) wrapThenFail).1.parent? 1 =
        some 4 := by
  refine ⟨⟨rootedCalls, by decide +kernel, rfl⟩, ?_⟩
  decide +kernel

end Forest
end SvgTree
