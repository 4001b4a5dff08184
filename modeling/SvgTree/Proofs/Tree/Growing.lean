/-
Trees that grow splice by splice.

A tree can be grown from the root of a raw tree by itself: each raw child in its turn is put at
the end of the children of its parent, whole or by itself, and in the second case its own
children follow in the same way, in any order among the parents.  A tree that grows is a begun
one at each step and has less to come, so every growth ends.
-/
import Mathlib.Algebra.BigOperators.Group.Finset.Basic
import SvgTree.Proofs.Tree.Begun

namespace SvgTree

open Blueprint (ofValue weight weightAll)
open Value (RawTree)

theorem Blueprint.weight_pos (b : Blueprint) : 0 < b.weight := by
  cases b with
  | fresh fields items =>
    rw [weight]
    exact Nat.lt_of_lt_of_le Nat.one_pos (Nat.le_add_right _ _)
  | _ => exact Nat.one_pos

/-- A forest in which a tree grows, and for each node the raw children that are to come. -/
structure Growth where
  forest : Forest
  left : NodeId → List Value

namespace Growth

open Forest (nothing Begun Appends)

def start (f : Forest) (root : NodeId) (m : Value) : Growth :=
  ⟨f, Function.update nothing root m.items⟩

/-- What can be put in under a node now: the raw child that is next there, whole or by itself. -/
inductive Offers (s : Growth) (host : NodeId) : Value → Prop where
  | whole {v : Value} {rest : List Value} : s.left host = v :: rest → Offers s host v
  | bare {v : Value} {rest : List Value} : s.left host = v :: rest → Offers s host v.bare

/-- The raw child that is next under some node is put at the end of the children there, whole,
or by itself with its own children to come. -/
inductive Step : Growth → Growth → Prop where
  | whole {s : Growth} {host : NodeId} {v : Value} {rest : List Value} {place : Int}
    {g : Forest} {removed : List NodeId} :
    s.left host = v :: rest → (s.forest.children host).length ≤ place →
    s.forest.splice host (.int place) (.int 0) v = (g, .ok removed) →
    Step s ⟨g, Function.update s.left host rest⟩
  | bare {s : Growth} {host c : NodeId} {v : Value} {rest : List Value} {place : Int}
    {g : Forest} {removed : List NodeId} :
    s.left host = v :: rest → (s.forest.children host).length ≤ place →
    s.forest.splice host (.int place) (.int 0) v.bare = (g, .ok removed) →
    (g.children host).getLast? = some c →
    Step s ⟨g, Function.update (Function.update s.left host rest) c v.items⟩

def Fails (s : Growth) (e : Fault) : Prop :=
  ∃ host w, ∃ place : Int, s.Offers host w ∧ (s.forest.children host).length ≤ place ∧
    (s.forest.splice host (.int place) (.int 0) w).2 = .error e

inductive Runs : Nat → Growth → Growth → Prop where
  | none {s : Growth} : Runs 0 s s
  | more {n : Nat} {s t u : Growth} : Step s t → Runs n t u → Runs (n + 1) s u

structure Growing (m : Value) (root : NodeId) (s : Growth) : Prop where
  wellFormed : s.forest.WellFormed
  top : s.forest.parent? root = none
  begun : Begun s.forest s.left m root
  hosts : ∀ i, s.left i ≠ [] →
    i < s.forest.size ∧ (s.forest.node i).ofClass = .legacy
  parts : ∀ i, ∀ v ∈ s.left i, RawTree v ∧ ∀ e, v.HasFault e → m.HasFault e

def waiting (left : NodeId → List Value) (i : NodeId) : Nat := weightAll ((left i).map ofValue)

def toCome (s : Growth) : Nat := ∑ i ∈ Finset.range s.forest.size, waiting s.left i

theorem sum_range_exchange {a b : Nat → Nat} {k n : Nat} (hk : k < n)
    (h : ∀ i < n, i ≠ k → a i = b i) :
    ∑ i ∈ Finset.range n, a i + b k = ∑ i ∈ Finset.range n, b i + a k := by
  have hmem := Finset.mem_range.mpr hk
  have hothers : ∑ i ∈ (Finset.range n).erase k, a i = ∑ i ∈ (Finset.range n).erase k, b i := by
    refine Finset.sum_congr rfl fun i hi => ?_
    obtain ⟨hne, hi⟩ := Finset.mem_erase.mp hi
    exact h i (Finset.mem_range.mp hi) hne
  rw [← Finset.add_sum_erase _ a hmem, ← Finset.add_sum_erase _ b hmem, hothers]
  omega

/-- The growth once a child of `host` was put in, the first new node, with `inner` to come. -/
def next (s : Growth) (g : Forest) (host : NodeId) (rest inner : List Value) : Growth :=
  ⟨g, Function.update (Function.update s.left host rest) s.forest.size inner⟩

variable {s t : Growth} {m v w : Value} {root host : NodeId} {rest inner : List Value} {g : Forest}
  {e : Fault}

theorem left_start (f : Forest) (root : NodeId) (m : Value) (i : NodeId) :
    (start f root m).left i = if i = root then m.items else [] := by
  simp only [start, Function.update_apply, nothing]

theorem left_next (s : Growth) (g : Forest) (host : NodeId) (rest inner : List Value)
    (i : NodeId) : (s.next g host rest inner).left i =
      if i = s.forest.size then inner else if i = host then rest else s.left i := by
  simp only [next, Function.update_apply]

namespace Growing

theorem left_eq_nil (x : Growing m root s) {i : NodeId} (hi : s.forest.size ≤ i) :
    s.left i = [] :=
  Classical.byContradiction fun h => absurd (x.hosts i h).1 (Nat.not_lt.mpr hi)

theorem host_of_next (x : Growing m root s) (hnext : s.left host = v :: rest) :
    host < s.forest.size ∧ (s.forest.node host).ofClass = .legacy :=
  x.hosts host (hnext ▸ List.cons_ne_nil v rest)

theorem part_of_next (x : Growing m root s) (hnext : s.left host = v :: rest) :
    RawTree v ∧ ∀ e, v.HasFault e → m.HasFault e :=
  x.parts host v (hnext ▸ List.mem_cons_self)

theorem next_nil (x : Growing m root s) (hhost : host < s.forest.size) (g : Forest)
    (rest : List Value) : s.next g host rest [] = ⟨g, Function.update s.left host rest⟩ := by
  have hnone : [] = Function.update s.left host rest s.forest.size := by
    rw [Function.update_of_ne (Nat.ne_of_gt hhost), x.left_eq_nil (Nat.le_refl _)]
  rw [next, Function.update_eq_self_iff.mpr hnone]

/-- A child that was put in for the raw one that was next. -/
theorem put (x : Growing m root s) (hnext : s.left host = v :: rest) (hhost : host < s.forest.size)
    (a : Appends s.forest g host w)
    (child : Begun g (s.next g host rest inner).left v s.forest.size)
    (hinner : ∀ u ∈ inner, RawTree u ∧ ∀ e, u.HasFault e → m.HasFault e) :
    Growing m root (s.next g host rest inner) := by
  have hleft := left_next s g host rest inner
  have hclass {i : NodeId} (hi : i < s.forest.size) :
      (g.node i).ofClass = (s.forest.node i).ofClass := Forest.ofClass_node_congr (a.holds_eq hi)
  refine ⟨a.wellFormed, (a.parent_eq x.begun.lt_size).trans x.top, ?_, fun i hi => ?_,
    fun i u hu => ?_⟩
  · refine x.begun.push (fun i hi => a.holds_eq hi) a.children_host
      (fun i hi hne => a.children_other hi hne) hnext ?_ (fun i hi hne => ?_) child
    · rw [hleft, if_neg (Nat.ne_of_lt hhost), if_pos rfl]
    · rw [hleft, if_neg (Nat.ne_of_lt hi), if_neg hne]
  · show i < g.size ∧ (g.node i).ofClass = .legacy
    rw [hleft] at hi
    split at hi
    · rename_i hnew
      rw [hnew]
      exact ⟨a.root_lt, a.class_eq (Nat.le_refl _) a.root_lt⟩
    · have hold : i < s.forest.size ∧ (s.forest.node i).ofClass = .legacy := by
        split at hi
        · rename_i hih
          rw [hih]
          exact x.host_of_next hnext
        · exact x.hosts i hi
      exact ⟨Nat.lt_trans hold.1 a.root_lt, (hclass hold.1).trans hold.2⟩
  · rw [hleft] at hu
    split at hu
    · exact hinner u hu
    · split at hu
      · exact x.parts host u (by rw [hnext]; exact List.mem_cons_of_mem _ hu)
      · exact x.parts i u hu

/-- What is to come after that: less the raw child, and more what is to come under it. -/
theorem toCome_next (x : Growing m root s) (hnext : s.left host = v :: rest)
    (hhost : host < s.forest.size) (hsize : s.forest.size < g.size) (inner : List Value) :
    (s.next g host rest inner).toCome + weight (ofValue v) =
      s.toCome + weightAll (inner.map ofValue) := by
  have hleft := left_next s g host rest inner
  -- Beyond the first new node nothing is to come.
  have hall : (s.next g host rest inner).toCome =
      ∑ i ∈ Finset.range (s.forest.size + 1), waiting (s.next g host rest inner).left i := by
    refine (Finset.sum_subset (Finset.range_mono hsize) fun i _ hi => ?_).symm
    rw [Finset.mem_range, Nat.not_lt] at hi
    have hold : s.forest.size ≤ i := Nat.le_of_succ_le hi
    have hnone : (s.next g host rest inner).left i = [] := by
      rw [hleft, if_neg (Nat.ne_of_gt hi), if_neg (Nat.ne_of_gt (Nat.lt_of_lt_of_le hhost hold)),
        x.left_eq_nil hold]
    rw [waiting, hnone, List.map_nil, weightAll]
  have hothers : ∀ i < s.forest.size, i ≠ host →
      waiting (s.next g host rest inner).left i = waiting s.left i := by
    intro i hi hne
    rw [waiting, hleft, if_neg (Nat.ne_of_lt hi), if_neg hne, waiting]
  have hsum := sum_range_exchange hhost hothers
  have hnew : waiting (s.next g host rest inner).left s.forest.size =
      weightAll (inner.map ofValue) := by
    rw [waiting, hleft, if_pos rfl]
  have hafter : waiting (s.next g host rest inner).left host = weightAll (rest.map ofValue) := by
    rw [waiting, hleft, if_neg (Nat.ne_of_lt hhost), if_pos rfl]
  have hbefore : waiting s.left host = weight (ofValue v) + weightAll (rest.map ofValue) := by
    rw [waiting, hnext, List.map_cons, weightAll]
  rw [hall, Finset.sum_range_succ, hnew, toCome]
  omega

/-- A raw node that can be put in goes to the end of the children, or is refused with a fault of
the raw tree. -/
theorem splice_cases (x : Growing m root s) (h : s.Offers host w) {place : Int}
    (hplace : (s.forest.children host).length ≤ place) :
    (∃ g, s.forest.splice host (.int place) (.int 0) w = (g, .ok []) ∧
      Appends s.forest g host w ∧ ∀ e, ¬ w.HasFault e) ∨
    ∃ g e, s.forest.splice host (.int place) (.int 0) w = (g, .error e) ∧ m.HasFault e := by
  obtain ⟨v, rest, hnext, hw⟩ : ∃ v rest, s.left host = v :: rest ∧ (w = v ∨ w = v.bare) := by
    cases h with
    | whole hnext => exact ⟨_, _, hnext, .inl rfl⟩
    | bare hnext => exact ⟨_, _, hnext, .inr rfl⟩
  obtain ⟨hhost, hclass⟩ := x.host_of_next hnext
  obtain ⟨tree, hpart⟩ := x.part_of_next hnext
  have hpiece : RawTree w ∧ ∀ e, w.HasFault e → v.HasFault e := by
    rcases hw with rfl | rfl
    · exact ⟨tree, fun _ he => he⟩
    · cases tree with
      | @node es _ _ =>
        exact ⟨Value.rawTree_bare es,
          fun _ he => Value.hasFault_iff.mpr (.inl (Value.hasFault_bare.mp he))⟩
  rcases Forest.splice_at_end x.wellFormed hhost hclass hpiece.1 hplace with
    hdone | ⟨g, e, hrun, he⟩
  · exact .inl hdone
  · exact .inr ⟨g, e, hrun, hpart e (hpiece.2 e he)⟩

theorem put_whole (x : Growing m root s) (hnext : s.left host = v :: rest)
    (a : Appends s.forest g host v) :
    Growing m root ⟨g, Function.update s.left host rest⟩ ∧
      toCome ⟨g, Function.update s.left host rest⟩ < s.toCome := by
  have hhost := (x.host_of_next hnext).1
  have hnone : ∀ i, s.forest.size ≤ i → (s.next g host rest []).left i = [] := by
    intro i hi
    rw [left_next, if_neg (Nat.ne_of_gt (Nat.lt_of_lt_of_le hhost hi)), x.left_eq_nil hi]
    split <;> rfl
  have hless := x.toCome_next hnext hhost a.root_lt []
  have hpos := Blueprint.weight_pos (ofValue v)
  rw [List.map_nil, weightAll] at hless
  rw [← x.next_nil hhost]
  exact ⟨x.put hnext hhost a (a.begun hnone) (by simp), by omega⟩

theorem put_bare (x : Growing m root s) {es : List (Value × Value)}
    (hnext : s.left host = .dict es :: rest) (a : Appends s.forest g host (Value.dict es).bare)
    (hno : ∀ e, ¬ (Value.dict es).bare.HasFault e) :
    Growing m root (s.next g host rest (Value.dict es).items) ∧
      (s.next g host rest (Value.dict es).items).toCome < s.toCome := by
  have hhost := (x.host_of_next hnext).1
  obtain ⟨tree, hpart⟩ := x.part_of_next hnext
  have child : Begun g (s.next g host rest (Value.dict es).items).left (.dict es)
      s.forest.size := by
    have hbare : Begun g nothing (Value.dict es).bare s.forest.size := a.begun fun _ _ => rfl
    refine hbare.of_bare ?_
    rw [left_next, if_pos rfl]
  have hinner : ∀ u ∈ (Value.dict es).items, RawTree u ∧ ∀ e, u.HasFault e → m.HasFault e :=
    fun u hu => ⟨tree.item u hu,
      fun e he => hpart e (Value.hasFault_iff.mpr (.inr ⟨u, hu, he⟩))⟩
  refine ⟨x.put hnext hhost a child hinner, ?_⟩
  have hless := x.toCome_next hnext hhost a.root_lt (Value.dict es).items
  cases hread : Fields.ofEntries es with
  | error e => exact absurd (Value.hasFault_bare.mpr hread) (hno e)
  | ok fields =>
    rw [tree.ofValue_ok hread, weight] at hless
    omega

/-- A step leaves a growth of the same raw tree, with less to come. -/
theorem step (x : Growing m root s) (h : Step s t) : Growing m root t ∧ t.toCome < s.toCome := by
  cases h with
  | whole hnext hplace hrun =>
    rcases x.splice_cases (.whole hnext) hplace with ⟨g, hrun', a, -⟩ | ⟨g, e, hrun', -⟩
    · rw [hrun] at hrun'
      cases hrun'
      exact x.put_whole hnext a
    · rw [hrun] at hrun'
      cases hrun'
  | @bare host c v rest place g removed hnext hplace hrun hlast =>
    rcases x.splice_cases (.bare hnext) hplace with ⟨g', hrun', a, hno⟩ | ⟨g', e, hrun', -⟩
    · rw [hrun] at hrun'
      cases hrun'
      rw [a.children_host, List.getLast?_concat] at hlast
      cases hlast
      cases (x.part_of_next hnext).1 with
      | node _ _ => exact x.put_bare hnext a hno
    · rw [hrun] at hrun'
      cases hrun'

theorem hasFault (x : Growing m root s) (h : Fails s e) : m.HasFault e := by
  obtain ⟨host, w, place, hoffers, hplace, hrun⟩ := h
  rcases x.splice_cases hoffers hplace with ⟨g, hrun', -⟩ | ⟨g, e', hrun', he⟩
  · rw [hrun'] at hrun
    cases hrun
  · rw [hrun'] at hrun
    cases hrun
    exact he

theorem runs {n : Nat} (x : Growing m root s) (h : Runs n s t) :
    Growing m root t ∧ n + t.toCome ≤ s.toCome := by
  induction h with
  | none => exact ⟨x, Nat.le_of_eq (Nat.zero_add _)⟩
  | more hstep _ ih =>
    obtain ⟨y, hless⟩ := x.step hstep
    obtain ⟨z, hle⟩ := ih y
    exact ⟨z, by omega⟩

end Growing
end Growth
end SvgTree
