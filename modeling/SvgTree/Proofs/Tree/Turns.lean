/-
Traversals turn by turn.

In a turn one node comes off the stack and is handed to the visitor.  When the visitor has
returned, the children that the node has by then go on top of the stack.  `Turns` is the
traversal as it runs, without a bound and at whatever point it is looked at, and it keeps apart
which turn put which node on the stack.  No visitor can change what a turn has put there: what
was handed over because of it so far, and then what still waits because of it, is the list of
children as the visitor left it in that turn.  So a visitor is led to the nodes that it puts
under the node in its hand, and not to those that it takes away from there.
-/
import SvgTree.Proofs.Reachable
import SvgTree.Tree.Walk

namespace SvgTree
namespace Forest

/-- A node on the stack, with the number of the turn that put it there.  The node that a
traversal starts from was put there by none. -/
structure Queued where
  node : NodeId
  turn? : Option Nat

/-- A node that was handed to the visitor, and what the visitor worked on before and after. -/
structure Turn (α : Type) extends Queued where
  before : Visit α
  after : Visit α

def queue (f : Forest) (i : NodeId) (turn : Nat) : List Queued :=
  (f.children i).map fun c => ⟨c, some turn⟩

section Turns

variable {α : Type} {visit : NodeId → Visit α → Visit α × Option Fault} {count fuel k : Nat}
  {q : Queued} {stack left : List Queued} {v w x : Visit α} {turns : List (Turn α)}

/-- Some turns from a stack on, `count` turns after the start, with what is on the stack after
them. -/
inductive Turns (visit : NodeId → Visit α → Visit α × Option Fault) :
    Nat → List Queued → Visit α → List (Turn α) → List Queued → Visit α → Prop where
  | stop {count : Nat} {stack : List Queued} {v : Visit α} : Turns visit count stack v [] stack v
  | turn {count : Nat} {q : Queued} {stack left : List Queued} {v w x : Visit α}
    {turns : List (Turn α)} : visit q.node v = (w, none) →
      Turns visit (count + 1) (w.forest.queue q.node count ++ stack) w turns left x →
        Turns visit count (q :: stack) v ({ q with before := v, after := w } :: turns) left x

/-- How the turns that `fuel` allows end: there are no more, nothing waits, or the visitor fails
at the node that comes next. -/
inductive Ending (visit : NodeId → Visit α → Visit α × Option Fault) (fuel : Nat)
    (turns : List (Turn α)) (left : List Queued) (x : Visit α) : Visit α × Option Fault → Prop where
  | spent : turns.length = fuel → Ending visit fuel turns left x (x, none)
  | done : turns.length < fuel → left = [] → Ending visit fuel turns left x (x, none)
  | failed {q : Queued} {rest : List Queued} {w : Visit α} {e : Fault} : turns.length < fuel →
    left = q :: rest → visit q.node x = (w, some e) → Ending visit fuel turns left x (w, some e)

theorem Ending.cons {r : Visit α × Option Fault} (h : Ending visit fuel turns left x r)
    (t : Turn α) : Ending visit (fuel + 1) (t :: turns) left x r := by
  cases h with
  | spent hlen => exact .spent (congrArg Nat.succ hlen)
  | done hlen hleft => exact .done (Nat.succ_lt_succ hlen) hleft
  | failed hlen hleft hfails => exact .failed (Nat.succ_lt_succ hlen) hleft hfails

namespace Turns

/-- After some turns a traversal goes on from the stack that they leave. -/
theorem traverse_eq (t : Turns visit count stack v turns left x) (fuel : Nat) :
    traverse visit (turns.length + fuel) (stack.map (·.node)) v =
      traverse visit fuel (left.map (·.node)) x := by
  induction t with
  | stop => rw [List.length_nil, Nat.zero_add]
  | @turn count q stack left v w x turns hvisit _ ih =>
    rw [List.map_append, queue, List.map_map] at ih
    rw [List.length_cons, Nat.add_right_comm, List.map_cons, traverse, hvisit, ← ih]
    simp [Function.comp_def]

/-- A traversal takes turns until one of three things ends it. -/
theorem exists_of_traverse (visit : NodeId → Visit α → Visit α × Option Fault) (fuel count : Nat)
    (stack : List Queued) (v : Visit α) :
    ∃ turns left x, Turns visit count stack v turns left x ∧
      Ending visit fuel turns left x (traverse visit fuel (stack.map (·.node)) v) := by
  induction fuel generalizing count stack v with
  | zero => exact ⟨[], stack, v, .stop, .spent rfl⟩
  | succ fuel ih =>
    cases stack with
    | nil => exact ⟨[], [], v, .stop, .done (Nat.succ_pos fuel) rfl⟩
    | cons q stack =>
      rw [List.map_cons, traverse]
      rcases hvisit : visit q.node v with ⟨w, _ | e⟩
      · obtain ⟨turns, left, x, t, hend⟩ :=
          ih (count + 1) (w.forest.queue q.node count ++ stack) w
        have hnodes : (w.forest.queue q.node count ++ stack).map (·.node) =
            w.forest.children q.node ++ stack.map (·.node) := by
          simp [queue, Function.comp_def]
        rw [hnodes] at hend
        exact ⟨_, left, x, .turn hvisit t, hend.cons _⟩
      · exact ⟨[], q :: stack, v, .stop, .failed (Nat.succ_pos fuel) rfl hvisit⟩

end Turns

/-! ### What a turn puts on the stack -/

def putBy (k : Nat) (l : List Queued) : List NodeId :=
  (l.filter fun q => q.turn? == some k).map (·.node)

theorem putBy_append (k : Nat) (l m : List Queued) : putBy k (l ++ m) = putBy k l ++ putBy k m := by
  rw [putBy, List.filter_append, List.map_append, putBy, putBy]

theorem putBy_queue (f : Forest) (i : NodeId) (k turn : Nat) :
    putBy k (f.queue i turn) = if turn = k then f.children i else [] := by
  unfold putBy queue
  by_cases h : turn = k
  · simp [h, List.filter_map, Function.comp_def]
  · simp [h, List.filter_map, Function.comp_def]

def PutBefore (count : Nat) (l : List Queued) : Prop := ∀ q ∈ l, ∀ k ∈ q.turn?, k < count

theorem putBy_of_before {l : List Queued} (h : PutBefore count l) (hk : count ≤ k) :
    putBy k l = [] := by
  rw [putBy, List.map_eq_nil_iff, List.filter_eq_nil_iff]
  intro q hq hby
  have := h q hq k (beq_iff_eq.mp hby)
  omega

theorem PutBefore.queue_append (h : PutBefore count stack) (f : Forest) (i : NodeId) :
    PutBefore (count + 1) (f.queue i count ++ stack) := by
  intro q hq k hk
  rcases List.mem_append.mp hq with hq | hq
  · obtain ⟨c, -, rfl⟩ := List.mem_map.mp hq
    cases hk
    exact Nat.lt_succ_self count
  · exact Nat.lt_succ_of_lt (h q hq k hk)

/-- The nodes that the turn with number `k` put on the stack: those handed over since, and then
those that still wait. -/
def queuedBy (k : Nat) (turns : List (Turn α)) (left : List Queued) : List NodeId :=
  putBy k (turns.map (·.toQueued) ++ left)

theorem queuedBy_cons (k : Nat) (t : Turn α) (turns : List (Turn α)) (left : List Queued) :
    queuedBy k (t :: turns) left = putBy k [t.toQueued] ++ queuedBy k turns left :=
  putBy_append k [t.toQueued] (turns.map (·.toQueued) ++ left)

namespace Turns

/-- Later turns hand over what an earlier one has put on the stack, and put nothing to it. -/
theorem queuedBy_earlier (t : Turns visit count stack v turns left x) (hk : k < count) :
    queuedBy k turns left = putBy k stack := by
  induction t with
  | stop => rfl
  | @turn count q stack left v w x turns _ _ ih =>
    have hrest := ih (Nat.lt_succ_of_lt hk)
    rw [putBy_append, putBy_queue, if_neg (Nat.ne_of_gt hk), List.nil_append] at hrest
    rw [queuedBy_cons, hrest]
    exact (putBy_append k [q] stack).symm

/-- A turn puts the children on the stack that the node has when the visitor returns. -/
theorem queuedBy_eq (t : Turns visit count stack v turns left x) (hstack : PutBefore count stack)
    {m : Nat} {turn : Turn α} (hm : turns[m]? = some turn) :
    queuedBy (count + m) turns left = turn.after.forest.children turn.node := by
  induction t generalizing m with
  | stop => cases hm
  | @turn count q stack left v w x turns _ t ih =>
    have hq : PutBefore count [q] := fun p hp => hstack p (by simp_all)
    have hbelow : PutBefore count stack := fun p hp => hstack p (List.mem_cons_of_mem _ hp)
    rw [queuedBy_cons, putBy_of_before hq (Nat.le_add_right count m), List.nil_append]
    cases m with
    | zero =>
      rw [List.getElem?_cons_zero, Option.some.injEq] at hm
      rw [Nat.add_zero, t.queuedBy_earlier (Nat.lt_succ_self count), putBy_append, putBy_queue,
        if_pos rfl, putBy_of_before hbelow (Nat.le_refl count), List.append_nil, ← hm]
    | succ m =>
      have hafter := ih (hbelow.queue_append w.forest q.node) hm
      rwa [Nat.add_right_comm] at hafter

/-- Where the visitor leaves every node that it is handed with a child, there is always a next
node, whatever it was that was on the list before. -/
theorem endless (hvisit : ∀ i (v : Visit α), i < v.forest.size → ∃ w c rest,
      visit i v = (w, none) ∧ w.forest.children i = c :: rest ∧ c < w.forest.size)
    (n : Nat) (hq : q.node < v.forest.size) :
    ∃ turns next left x, Turns visit count (q :: stack) v turns (next :: left) x ∧
      turns.length = n := by
  induction n generalizing count q stack v with
  | zero => exact ⟨[], q, stack, v, .stop, rfl⟩
  | succ n ih =>
    obtain ⟨w, c, rest, hturn, hchildren, hc⟩ := hvisit q.node v hq
    have hqueue : w.forest.queue q.node count ++ stack =
        ⟨c, some count⟩ :: (rest.map (⟨·, some count⟩) ++ stack) := by
      rw [queue, hchildren]
      rfl
    obtain ⟨turns, next, left, x, t, hlen⟩ : ∃ turns next left x,
        Turns visit (count + 1) (w.forest.queue q.node count ++ stack) w turns (next :: left) x ∧
          turns.length = n := by
      rw [hqueue]
      exact ih hc
    exact ⟨_, next, left, x, .turn hturn t, congrArg Nat.succ hlen⟩

theorem turn_of_children {l : List NodeId} (hdone : (visit q.node v).2 = none)
    (hchildren : (visit q.node v).1.forest.children q.node = l)
    (t : Turns visit (count + 1) (l.map (⟨·, some count⟩) ++ stack) (visit q.node v).1 turns
      left x) :
    Turns visit count (q :: stack) v ({ q with before := v, after := (visit q.node v).1 } :: turns)
      left x := by
  refine .turn (Prod.ext rfl hdone) ?_
  rwa [queue, hchildren]

end Turns

/-- A traversal runs in turns, whatever the visitor does: as many as it is given, or until nothing
waits, or until the visitor fails.  At each point of it, and for every turn so far, the nodes that
were handed over because of the turn and then those that still wait because of it are the
children, in order, that the node had when the visitor returned.  They are the children that it
had when it was handed over just where the visitor left these as they were. -/
theorem children_queued_on_return (visit : NodeId → Visit α → Visit α × Option Fault)
    (root : NodeId) (v : Visit α) :
    (∀ fuel, ∃ turns left x, Turns visit 0 [⟨root, none⟩] v turns left x ∧
      Ending visit fuel turns left x (traverse visit fuel [root] v)) ∧
    ∀ turns left x, Turns visit 0 [⟨root, none⟩] v turns left x →
      ∀ k t, turns[k]? = some t →
        queuedBy k turns left = t.after.forest.children t.node ∧
        (queuedBy k turns left = t.before.forest.children t.node ↔
          t.after.forest.children t.node = t.before.forest.children t.node) := by
  have hstart : PutBefore 0 [⟨root, none⟩] := by
    intro q hq k hk
    rw [List.mem_singleton.mp hq] at hk
    cases hk
  refine ⟨fun fuel => Turns.exists_of_traverse visit fuel 0 [⟨root, none⟩] v, ?_⟩
  intro turns left x run k t ht
  have hqueued := run.queuedBy_eq hstart ht
  rw [Nat.zero_add] at hqueued
  exact ⟨hqueued, by rw [hqueued]⟩

end Turns

def replacing (i : NodeId) (v : Visit Unit) : Visit Unit × Option Fault :=
  if i = 1 then
    match v.forest.splice 1 (.int 0) (.int 1) (.dict [(.text "name", .text "d")]) with
    | (g, .ok _) => (⟨g, ()⟩, none)
    | (g, .error e) => (⟨g, ()⟩, some e)
  else (v, none)

theorem turns_of_replacing :
    ∃ turns w t, Turns replacing 0 [⟨0, none⟩] ⟨Forest.empty.afterAll rootedCalls, ()⟩ turns [] w ∧
      turns.map (·.node) = [0, 1, 4, 2] ∧ turns[1]? = some t ∧ t.node = 1 ∧
      t.before.forest.children 1 = [3] ∧ t.after.forest.children 1 = [4] := by
  refine ⟨_, _, _, .turn_of_children (l := [1, 2]) (by decide +kernel) (by decide +kernel) <|
    .turn_of_children (l := [4]) (by decide +kernel) (by decide +kernel) <|
    .turn_of_children (l := []) (by decide +kernel) (by decide +kernel) <|
    .turn_of_children (l := []) (by decide +kernel) (by decide +kernel) .stop, rfl, rfl, rfl, ?_⟩
  decide +kernel

/-- The turn that is handed node 1 puts the new element on the stack and not the old one. -/
theorem children_queued_on_return_of_replacing :
    ∃ turns w t, Turns replacing 0 [⟨0, none⟩] ⟨Forest.empty.afterAll rootedCalls, ()⟩ turns [] w ∧
      turns[1]? = some t ∧ queuedBy 1 turns [] = [4] ∧
      (queuedBy 1 turns [] = t.before.forest.children t.node ↔
        t.after.forest.children t.node = t.before.forest.children t.node) := by
  obtain ⟨turns, w, t, run, -, ht, hnode, -, hafter⟩ := turns_of_replacing
  obtain ⟨-, queued⟩ :=
    children_queued_on_return replacing 0 ⟨Forest.empty.afterAll rootedCalls, ()⟩
  obtain ⟨hqueued, hiff⟩ := queued turns [] w run 1 t ht
  refine ⟨turns, w, t, run, ht, ?_, hiff⟩
  rw [hqueued, hnode, hafter]

/-- The element that was on the list of node 1 when that was handed over is never handed over
itself, and the one that the visitor put there is. -/
theorem replaced_child_passed_over :
    (Forest.empty.afterAll rootedCalls).Reachable ∧
      ∃ turns w t, Turns replacing 0 [⟨0, none⟩] ⟨Forest.empty.afterAll rootedCalls, ()⟩ turns []
          w ∧
        turns[1]? = some t ∧ t.node = 1 ∧ t.before.forest.children 1 = [3] ∧
        queuedBy 1 turns [] ≠ t.before.forest.children t.node ∧
        3 ∉ turns.map (·.node) ∧ 4 ∉ t.before.forest.children 1 ∧ 4 ∈ turns.map (·.node) := by
  obtain ⟨turns, w, t, run, hnodes, ht, hnode, hbefore, hafter⟩ := turns_of_replacing
  have hqueued := run.queuedBy_eq (m := 1) (by simp [PutBefore]) ht
  refine ⟨⟨rootedCalls, by decide +kernel, rfl⟩, turns, w, t, run, ht, hnode, hbefore, ?_, ?_, ?_,
    ?_⟩
  · rw [hqueued, hnode, hafter, hbefore]
    decide
  · rw [hnodes]
    decide
  · rw [hbefore]
    decide
  · rw [hnodes]
    decide

end Forest
end SvgTree
