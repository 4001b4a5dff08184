/-
Three ways to build a tree.

Wrapping a raw tree at once, constructing its root from the fields one by one, and wrapping the
root by itself and growing the rest splice by splice come to the same: what they build is told
by the raw tree alone, and what they end in otherwise is the fault of one of its raw nodes.  They
come across the raw nodes in different orders, so of several faults they may meet different
ones.
-/
import SvgTree.Proofs.Tree.Growing

namespace SvgTree

open Blueprint (ofValue weight weightAll)
open Value (RawTree)

namespace Forest

/-- What a building in pieces can come to: a raw tree is wrapped without its children, and these
are put in one by one, until none is to come or one is refused. -/
inductive Piecewise (f : Forest) (m : Value) : Except Fault (Forest × NodeId) → Prop where
  | refused {g : Forest} {e : Fault} : f.wrap m.bare = (g, .error e) → Piecewise f m (.error e)
  | stopped {g : Forest} {r n : Nat} {s : Growth} {e : Fault} :
    f.wrap m.bare = (g, .ok r) → Growth.Runs n (.start g r m) s → s.Fails e →
    Piecewise f m (.error e)
  | grown {g : Forest} {r n : Nat} {s : Growth} :
    f.wrap m.bare = (g, .ok r) → Growth.Runs n (.start g r m) s → (∀ i, s.left i = []) →
    Piecewise f m (.ok (s.forest, r))

variable {f g : Forest} {es : List (Value × Value)} {m : Value} {r : NodeId}

theorem Plants.growing (p : Plants .legacy f g (Value.dict es).bare) (tree : RawTree (.dict es))
    (wf : f.WellFormed) : Growth.Growing (.dict es) f.size (.start g f.size (.dict es)) := by
  have hleft := Growth.left_start g f.size (.dict es)
  refine ⟨p.wellFormed, p.top, ?_, fun i hi => ?_, fun i v hv => ?_⟩
  · refine (p.begun (Value.rawTree_bare es) wf).of_bare ?_
    rw [hleft, if_pos rfl]
  · rw [hleft] at hi
    obtain rfl : i = f.size := Classical.byContradiction fun h => hi (if_neg h)
    exact ⟨p.root_lt, p.class_eq (Nat.le_refl _) p.root_lt⟩
  · rw [hleft] at hv
    split at hv
    · exact ⟨tree.item v hv, fun e he => Value.hasFault_iff.mpr (.inr ⟨v, hv, he⟩)⟩
    · exact absurd hv List.not_mem_nil

theorem wrap_bare (wf : f.WellFormed) (tree : RawTree (.dict es)) :
    (∃ g, f.wrap (Value.dict es).bare = (g, .ok f.size) ∧
      Growth.Growing (.dict es) f.size (.start g f.size (.dict es)) ∧
      ∃ fields, Fields.ofEntries es = .ok fields) ∨
    ∃ g e, f.wrap (Value.dict es).bare = (g, .error e) ∧ (Value.dict es).HasFault e := by
  rcases realize_rawTree wf .legacy (Value.rawTree_bare es) with
    ⟨g, hrun, p, hno⟩ | ⟨g, e, hrun, he⟩
  · refine .inl ⟨g, hrun, p.growing tree wf, ?_⟩
    cases hread : Fields.ofEntries es with
    | ok fields => exact ⟨fields, rfl⟩
    | error e => exact absurd (Value.hasFault_bare.mpr hread) (hno e)
  · exact .inr ⟨g, e, hrun, Value.hasFault_iff.mpr (.inl (Value.hasFault_bare.mp he))⟩

theorem Piecewise.cases {out : Except Fault (Forest × NodeId)} (h : f.Piecewise (.dict es) out)
    (wf : f.WellFormed) (tree : RawTree (.dict es)) :
    (∃ k s, out = .ok (k, s) ∧ k.WellFormed ∧ Begun k nothing (.dict es) s ∧
      k.parent? s = none) ∨
    ∃ e, out = .error e ∧ (Value.dict es).HasFault e := by
  rcases wrap_bare wf tree with ⟨g, hrun, x, -⟩ | ⟨g, e, hrun, he⟩
  · cases h with
    | refused hrun' =>
      rw [hrun] at hrun'
      cases hrun'
    | stopped hrun' hruns hfails =>
      rw [hrun] at hrun'
      cases hrun'
      exact .inr ⟨_, rfl, (x.runs hruns).1.hasFault hfails⟩
    | @grown g' r n s hrun' hruns hdone =>
      rw [hrun] at hrun'
      cases hrun'
      have y := (x.runs hruns).1
      have hnothing : s.left = nothing := funext hdone
      have hbegun := y.begun
      rw [hnothing] at hbegun
      exact .inl ⟨_, _, rfl, y.wellFormed, hbegun, y.top⟩
  · cases h with
    | refused hrun' =>
      rw [hrun] at hrun'
      cases hrun'
      exact .inr ⟨_, rfl, he⟩
    | stopped hrun' _ _ | grown hrun' _ _ =>
      rw [hrun] at hrun'
      cases hrun'

end Forest
end SvgTree
