/-
Insertions as the nodes they become.

`Value.laidOut` drops null and lays lists out flat, and `Wraps` builds the raw nodes among
what is left, from left to right.  Where every item is a node or a raw node that can be built
and names no node, building never stops and moves nothing.
-/
import SvgTree.Proofs.Tree.Splicing

namespace SvgTree

open Blueprint (named finds ofInsertions ofElement ofNested)

namespace Value

def orNothing : Value → List Value
  | .null => []
  | v => [v]

def openedOnce : Value → List Value
  | .list items => items.flatMap orNothing
  | v => orNothing v

/-- The items of insertions in order, without null, and the lists in a list laid out flat. -/
def laidOut : Value → List Value
  | .list items => items.flatMap openedOnce
  | v => orNothing v

end Value

namespace Forest

variable {f₀ f g : Forest} {ofClass : NodeClass}

/-- A node of the forest, or a raw node that can be built and names no node. -/
def IsItem (f : Forest) (ofClass : NodeClass) : Value → Prop
  | .node i => i < f.size
  | .dict entries =>
    named (.ofValue (.dict entries)) = [] ∧ (f.ofRaw ofClass (.dict entries)).2.isOk = true
  | _ => False

/-- What items become, one after the other: a node is itself, a raw node is built. -/
inductive Wraps (ofClass : NodeClass) : Forest → List Value → Forest → List NodeId → Prop where
  | done {f : Forest} : Wraps ofClass f [] f []
  | node {f g : Forest} {i : NodeId} {rest : List Value} {nodes : List NodeId} :
    Wraps ofClass f rest g nodes → Wraps ofClass f (.node i :: rest) g (i :: nodes)
  | raw {f g h : Forest} {entries : List (Value × Value)} {n : NodeId} {rest : List Value}
    {nodes : List NodeId} :
    f.ofRaw ofClass (.dict entries) = (g, .ok n) → Wraps ofClass g rest h nodes →
      Wraps ofClass f (.dict entries :: rest) h (n :: nodes)

theorem ofValue_dict_ne_existing (entries : List (Value × Value)) (i : NodeId) :
    Blueprint.ofValue (.dict entries) ≠ .existing i := by
  rw [Blueprint.ofValue]
  unfold Blueprint.ofFields
  split <;> simp

theorem finds_of_isItem (wf : f.WellFormed) {entries : List (Value × Value)}
    (h : f.IsItem ofClass (.dict entries)) : finds (.ofValue (.dict entries)) = [] := by
  obtain ⟨hnamed, hrun⟩ := h
  obtain ⟨g, -, -, hout⟩ := realize_spec (Underway.start wf (by simp)) ofClass
    (ofValue_dict_ne_existing entries) (by rw [hnamed]; simp)
  have hn : ∀ i, Except.ok i ∉ finds (.ofValue (.dict entries)) := by
    intro i hi
    have := Blueprint.mem_named_of_finds hi
    rw [hnamed] at this
    exact absurd this List.not_mem_nil
  cases hf : finds (.ofValue (.dict entries)) with
  | nil => rfl
  | cons d rest =>
    rw [hf] at hout hn
    cases d with
    | ok i => exact absurd List.mem_cons_self (hn i)
    | error e =>
      have hfail : f.ofRaw ofClass (.dict entries) = (g, .error e) := hout
      rw [hfail] at hrun
      cases hrun

theorem exists_wraps (u : Underway f₀ f [] []) {items : List Value}
    (h : ∀ v ∈ items, f₀.IsItem ofClass v) (wf : f₀.WellFormed) :
    ∃ g nodes, Wraps ofClass f items g nodes ∧ Underway f₀ g [] [] ∧ f.size ≤ g.size ∧
      ∀ n ∈ nodes, n < g.size := by
  induction items generalizing f with
  | nil => exact ⟨f, [], .done, u, Nat.le_refl _, by simp⟩
  | cons v rest ih =>
    have hrest : ∀ v ∈ rest, f₀.IsItem ofClass v := fun v hv => h v (List.mem_cons_of_mem _ hv)
    have hv := h v List.mem_cons_self
    cases v with
    | node i =>
      obtain ⟨g, nodes, hw, hg, hle, hlt⟩ := ih u hrest
      refine ⟨g, i :: nodes, .node hw, hg, hle, fun n hn => ?_⟩
      rcases List.mem_cons.mp hn with rfl | hn
      · exact Nat.lt_of_lt_of_le hv hg.size_le
      · exact hlt n hn
    | dict entries =>
      have hfinds := finds_of_isItem wf hv
      obtain ⟨g, hg, hle, hout⟩ := realize_spec u ofClass
        (ofValue_dict_ne_existing entries) (by rw [hv.1]; simp)
      rw [hfinds] at hg hout
      obtain ⟨hrun, hsize⟩ := hout
      obtain ⟨g', nodes, hw, hg', hle', hlt⟩ := ih hg hrest
      refine ⟨g', f.size :: nodes, .raw hrun hw, hg', Nat.le_trans hle hle', fun n hn => ?_⟩
      rcases List.mem_cons.mp hn with rfl | hn
      · exact Nat.lt_of_lt_of_le hsize hle'
      · exact hlt n hn
    | _ => exact absurd hv (by simp [IsItem])

/-- The insertions of a splice are read as `Wraps` says. -/
theorem Wraps.realizeAll {items : List Value} {nodes : List NodeId}
    (w : Wraps ofClass f items g nodes) (done : List NodeId) :
    f.realizeAll ofClass (items.map .ofValue) done = (g, .ok (done.reverse ++ nodes)) := by
  induction w generalizing done with
  | done => rw [List.append_nil]; rfl
  | @node f g i rest nodes _ ih =>
    rw [List.map_cons, Blueprint.ofValue, Forest.realizeAll, ih, List.reverse_cons,
      List.append_assoc, List.singleton_append]
  | @raw f g h entries n rest nodes hrun _ ih =>
    have hreal : f.realize ofClass none (.ofValue (.dict entries)) = (g, .ok n) := hrun
    rw [List.map_cons, realizeAll_cons (ofValue_dict_ne_existing entries), hreal]
    show g.realizeAll ofClass (rest.map .ofValue) (n :: done) = _
    rw [ih, List.reverse_cons, List.append_assoc, List.singleton_append]

theorem ofNested_eq (host : Value) {v : Value} (h : ∀ w ∈ v.orNothing, f.IsItem ofClass w) :
    ofNested host v = v.orNothing.map .ofValue := by
  cases v with
  | null => rfl
  | node i => rw [ofNested, Value.orNothing, List.map_singleton, Blueprint.ofValue]; simp
  | dict entries => rfl
  | _ => exact absurd (h _ (List.mem_singleton_self _)) (by simp [IsItem])

theorem ofElement_eq (host : Value) {v : Value} (h : ∀ w ∈ v.openedOnce, f.IsItem ofClass w) :
    ofElement host v = v.openedOnce.map .ofValue := by
  cases v with
  | list items =>
    rw [ofElement, Value.openedOnce, List.map_flatMap]
    refine List.flatMap_congr fun w hw => ofNested_eq host fun x hx => h x ?_
    exact List.mem_flatMap.mpr ⟨w, hw, hx⟩
  | attrs m => exact absurd (h _ (List.mem_singleton_self _)) (by simp [IsItem])
  | _ =>
    simp only [ofElement, Value.openedOnce] at h ⊢
    exact ofNested_eq host h

theorem ofInsertions_eq (host : Value) {v : Value} (h : ∀ w ∈ v.laidOut, f.IsItem ofClass w) :
    ofInsertions host v = v.laidOut.map .ofValue := by
  cases v with
  | list items =>
    rw [ofInsertions, Value.laidOut, List.map_flatMap]
    refine List.flatMap_congr fun w hw => ofElement_eq host fun x hx => h x ?_
    exact List.mem_flatMap.mpr ⟨w, hw, hx⟩
  | attrs m => exact absurd (h _ (List.mem_singleton_self _)) (by simp [IsItem])
  | _ =>
    simp only [ofInsertions, Value.laidOut] at h ⊢
    exact ofNested_eq host h

end Forest
end SvgTree
