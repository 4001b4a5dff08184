/-
A comma is a union.

After a text that leaves no quote and no bracket open, a comma parts what stands before it
from what stands after it.  The alternatives of the whole are then those of both sides, a node
is accepted when either side accepts it, and a query finds, in document order, what either
side finds.  A node that both find comes once, since document order has every node once.
-/
import SvgTree.Proofs.Selector.Matching
import SvgTree.Proofs.Selector.Parsing

namespace SvgTree
namespace Selector

variable {a : String}

theorem alternativesOf_comma (h : Closed a.toList) (b : String) :
    alternativesOf (a ++ "," ++ b).toList = alternativesOf a.toList ++ alternativesOf b.toList := by
  have htext : (a ++ "," ++ b).toList = a.toList ++ ',' :: b.toList := by simp
  rw [htext, alternativesOf, piecesOf_append_comma h, List.map_append]
  rfl

theorem splitAlternatives_comma (h : Closed a.toList) (b : String) :
    splitAlternatives (a ++ "," ++ b) = splitAlternatives a ++ splitAlternatives b := by
  rw [splitAlternatives, alternativesOf_comma h, List.map_append]
  rfl

theorem accepts_comma (h : Closed a.toList) (b : String) (n : Fields) :
    (parse (a ++ "," ++ b)).accepts n = ((parse a).accepts n || (parse b).accepts n) := by
  have hall : (parse (a ++ "," ++ b)).alternatives =
      (parse a).alternatives ++ (parse b).alternatives := by
    rw [alternatives_parse, alternatives_parse, alternatives_parse, alternativesOf_comma h,
      List.map_append]
  rw [accepts, hall, List.any_append, accepts, accepts]

end Selector

namespace Forest

open Selector (Closed parse splitAlternatives)

variable {f : Forest} {r : NodeId} {a : String}

theorem mem_accepted {s : Selector} {l : List NodeId} {i : NodeId} :
    i ∈ f.accepted s l ↔ i ∈ l ∧ s.accepts (f.node i).toFields = true := List.mem_filter

theorem accepted_comma (h : Closed a.toList) (b : String) (l : List NodeId) :
    f.accepted (parse (a ++ "," ++ b)) l =
      l.filter fun i => i ∈ f.accepted (parse a) l ∨ i ∈ f.accepted (parse b) l := by
  refine List.filter_congr fun i hi => ?_
  rw [Selector.accepts_comma h, Bool.eq_iff_iff, decide_eq_true_iff, Bool.or_eq_true,
    mem_accepted, mem_accepted]
  simp only [hi, true_and]

/-- In every reachable forest whose kinds are text, a comma after a text that leaves nothing
open joins two selectors: the alternatives are those of both, a node matches when it matches
either, and a query finds in document order the nodes that a query for either finds, each of
them once. -/
theorem Reachable.comma_union (h : f.Reachable) (hr : r < f.size)
    (hkinds : ∀ i ∈ f.walk r, ∃ k, (f.node i).kind = .text k) (hclosed : Closed a.toList)
    (b : String) :
    splitAlternatives (a ++ "," ++ b) = splitAlternatives a ++ splitAlternatives b ∧
      (∀ n : Fields, (∃ k, n.kind = .text k) → ∃ x y, (parse a).test n = .ok x ∧
        (parse b).test n = .ok y ∧ (parse (a ++ "," ++ b)).test n = .ok (x || y)) ∧
      ∃ inA inB, f.queryAll r (parse a) = .ok inA ∧ f.queryAll r (parse b) = .ok inB ∧
        f.queryAll r (parse (a ++ "," ++ b)) =
          .ok ((f.preorder r).filter fun i => i ∈ inA ∨ i ∈ inB) ∧ (f.preorder r).Nodup := by
  have wf := h.wellFormed
  have hquery : ∀ s : Selector, f.queryAll r s = .ok (f.accepted s (f.walk r)) :=
    fun s => matching_eq fun i hi => Value.isHashable_of_text (hkinds i hi)
  have hboth := accepted_comma (f := f) hclosed b (f.walk r)
  have hnodup := wf.nodup_walk hr
  refine ⟨Selector.splitAlternatives_comma hclosed b, fun n hn => ?_, _, _, hquery _, hquery _,
    ?_, ?_⟩
  · have htest := Selector.test_eq (Value.isHashable_of_text hn)
    exact ⟨_, _, htest _, htest _, by rw [htest, Selector.accepts_comma hclosed]⟩
  · rw [hquery, hboth, wf.walk_eq_preorder hr]
  · rwa [wf.walk_eq_preorder hr] at hnodup

/-- Both sides find `c`, and only the second finds `a`, which stands before it. -/
theorem comma_union_of_rooted :
    (Forest.empty.afterAll rootedCalls).Reachable ∧ 0 < (Forest.empty.afterAll rootedCalls).size ∧
      (∀ i ∈ (Forest.empty.afterAll rootedCalls).walk 0,
        ∃ k, ((Forest.empty.afterAll rootedCalls).node i).kind = .text k) ∧
      Closed "[d=\"x,[\"],c".toList ∧
      splitAlternatives "[d=\"x,[\"],c, a ,c" = ["[d=\"x,[\"]", "c", "a", "c"] ∧
      (Forest.empty.afterAll rootedCalls).queryAll 0 (parse "[d=\"x,[\"],c, a ,c") =
        .ok [1, 2] := by
  have reach : (Forest.empty.afterAll rootedCalls).Reachable :=
    ⟨rootedCalls, by decide +kernel, rfl⟩
  have root : 0 < (Forest.empty.afterAll rootedCalls).size := by decide +kernel
  have closed : Closed "[d=\"x,[\"],c".toList := by decide +kernel
  have text : "[d=\"x,[\"],c" ++ "," ++ " a ,c" = "[d=\"x,[\"],c, a ,c" := by decide +kernel
  have order : (Forest.empty.afterAll rootedCalls).preorder 0 = [0, 1, 3, 2] := by decide +kernel
  have first : ((Forest.empty.afterAll rootedCalls).queryAll 0
      (parse "[d=\"x,[\"],c")).toOption = some [2] := by decide +kernel
  have second : ((Forest.empty.afterAll rootedCalls).queryAll 0
      (parse " a ,c")).toOption = some [1, 2] := by decide +kernel
  have pieces : splitAlternatives "[d=\"x,[\"],c" ++ splitAlternatives " a ,c" =
      ["[d=\"x,[\"]", "c", "a", "c"] := by decide +kernel
  obtain ⟨hsplit, -, inA, inB, hA, hB, hboth, -⟩ :=
    reach.comma_union root text_kinds_rooted closed " a ,c"
  rw [hA] at first
  cases first
  rw [hB] at second
  cases second
  rw [text, pieces] at hsplit
  rw [text, order] at hboth
  exact ⟨reach, root, text_kinds_rooted, closed, hsplit, hboth⟩

end Forest
end SvgTree
