/-
What building comes across in a raw tree, in building order.

New nodes always succeed.  What matters to the nodes that were there before is where
building comes to an existing node, which it takes, and where it comes to a fault, which
ends it.  `finds` lists these by recursion on the blueprint, without a stack and without a
forest: first what stands in the list of items itself, then what stands below its new nodes,
the last of them first.
-/
import SvgTree.Tree.Build

namespace SvgTree

/-- Something that building comes across: a node to take, or a fault. -/
abbrev Find := Except Fault NodeId

namespace Blueprint

mutual

def named : Blueprint → List NodeId
  | existing i => [i]
  | fresh _ items => namedAll items
  | broken _ => []

def namedAll : List Blueprint → List NodeId
  | [] => []
  | b :: rest => b.named ++ namedAll rest

end

def ownFinds : List Blueprint → List Find
  | [] => []
  | existing i :: rest => .ok i :: ownFinds rest
  | broken e :: rest => .error e :: ownFinds rest
  | fresh _ _ :: rest => ownFinds rest

mutual

def findsBelow : Blueprint → List Find
  | fresh _ items => ownFinds items ++ findsDeeper items
  | existing _ => []
  | broken _ => []

/-- What stands below the new nodes of a list of items, the last of them first. -/
def findsDeeper : List Blueprint → List Find
  | [] => []
  | b :: rest => findsDeeper rest ++ b.findsBelow

end

/-- What building one item of its own comes across.  An existing node is not built. -/
def finds : Blueprint → List Find
  | broken e => [.error e]
  | b => b.findsBelow

theorem mem_namedAll_of_ownFinds {i : NodeId} {items : List Blueprint}
    (h : Except.ok i ∈ ownFinds items) : i ∈ namedAll items := by
  induction items with
  | nil => simp [ownFinds] at h
  | cons b rest ih =>
    rw [namedAll, List.mem_append]
    cases b with
    | existing j =>
      rw [ownFinds, List.mem_cons] at h
      rcases h with h | h
      · left; cases h; simp [named]
      · exact .inr (ih h)
    | fresh fields inner => exact .inr (ih h)
    | broken e =>
      rw [ownFinds, List.mem_cons] at h
      exact .inr (ih (h.resolve_left (by simp)))

mutual

theorem mem_named_of_findsBelow {i : NodeId} (b : Blueprint)
    (h : Except.ok i ∈ b.findsBelow) : i ∈ b.named := by
  cases b with
  | existing j => simp [findsBelow] at h
  | broken e => simp [findsBelow] at h
  | fresh fields items =>
    rw [findsBelow, List.mem_append] at h
    rcases h with h | h
    · exact mem_namedAll_of_ownFinds h
    · exact mem_namedAll_of_findsDeeper items h

theorem mem_namedAll_of_findsDeeper {i : NodeId} (items : List Blueprint)
    (h : Except.ok i ∈ findsDeeper items) : i ∈ namedAll items := by
  cases items with
  | nil => simp [findsDeeper] at h
  | cons b rest =>
    rw [findsDeeper, List.mem_append] at h
    rw [namedAll, List.mem_append]
    rcases h with h | h
    · exact .inr (mem_namedAll_of_findsDeeper rest h)
    · exact .inl (mem_named_of_findsBelow b h)

end

theorem mem_named_of_finds {i : NodeId} {b : Blueprint} (h : Except.ok i ∈ b.finds) :
    i ∈ b.named := by
  cases b with
  | broken e => simp [finds] at h
  | existing j => exact mem_named_of_findsBelow _ h
  | fresh fields items => exact mem_named_of_findsBelow _ h

end Blueprint

namespace Find

/-- The nodes taken before building ends, where some nodes may not be taken. -/
def taken (barred : List NodeId) : List Find → List NodeId
  | .ok i :: rest => if i ∈ barred then [] else i :: taken barred rest
  | .error _ :: _ => []
  | [] => []

/-- What ends building: a node that may not be taken, or a fault. -/
def stop? (barred : List NodeId) : List Find → Option Find
  | .ok i :: rest => if i ∈ barred then some (.ok i) else stop? barred rest
  | .error e :: _ => some (.error e)
  | [] => none

variable {barred : List NodeId} {l k : List Find}

theorem ok_mem_of_mem_taken {i : NodeId} (h : i ∈ taken barred l) : Except.ok i ∈ l := by
  induction l with
  | nil => simp [taken] at h
  | cons d rest ih =>
    cases d with
    | error e => simp [taken] at h
    | ok j =>
      rw [taken] at h
      split at h
      · simp at h
      · rcases List.mem_cons.mp h with rfl | h
        · exact List.mem_cons_self
        · exact List.mem_cons_of_mem _ (ih h)

theorem taken_append_of_none (h : stop? barred l = none) :
    taken barred (l ++ k) = taken barred l ++ taken barred k ∧
      stop? barred (l ++ k) = stop? barred k := by
  induction l with
  | nil => exact ⟨rfl, rfl⟩
  | cons d rest ih =>
    cases d with
    | error e => simp [stop?] at h
    | ok j =>
      rw [stop?] at h
      by_cases hj : j ∈ barred
      · simp [hj] at h
      · rw [if_neg hj] at h
        obtain ⟨ht, hs⟩ := ih h
        simp only [List.cons_append, taken, stop?, if_neg hj, ht, hs, and_self]

theorem taken_append_of_some {d : Find} (h : stop? barred l = some d) :
    taken barred (l ++ k) = taken barred l ∧ stop? barred (l ++ k) = some d := by
  induction l with
  | nil => simp [stop?] at h
  | cons d rest ih =>
    cases d with
    | error e' => exact ⟨rfl, h⟩
    | ok j =>
      rw [stop?] at h
      by_cases hj : j ∈ barred
      · rw [if_pos hj] at h
        simp only [List.cons_append, taken, stop?, if_pos hj, h, and_self]
      · rw [if_neg hj] at h
        obtain ⟨ht, hs⟩ := ih h
        simp only [List.cons_append, taken, stop?, if_neg hj, ht, hs, and_self]

end Find
end SvgTree
