/-
The places of a tree in document order.

A place below a node is the list of the positions passed on the way down.  The walk of a tree
meets its nodes in the order in which `places` lists their places, and a node stands at one
place only.  Places are found from the shape of a tree alone, so two trees that hold
something at the same places have them in the same order.
-/
import SvgTree.Proofs.Tree.RoundTrip

namespace SvgTree
namespace Forest

def sideBySide (trees : List (List (List Nat))) : List (List Nat) :=
  trees.zipIdx.flatMap fun tree => tree.1.map (tree.2 :: ·)

def placesFrom (f : Forest) : Nat → NodeId → List (List Nat)
  | 0, _ => []
  | depth + 1, i => [] :: sideBySide ((f.children i).map (f.placesFrom depth))

def places (f : Forest) (root : NodeId) : List (List Nat) := f.placesFrom f.size root

/-- The node stands at this place below `root`, and at no other. -/
def StandsAt (f : Forest) (root i : NodeId) (path : List Nat) : Prop :=
  ∀ other, f.at? root other = some i ↔ other = path

variable {f g : Forest} {i j n r : NodeId} {path other : List Nat}

theorem WellFormed.places_eq (wf : f.WellFormed) (hi : i < f.size) :
    f.places i = [] :: sideBySide ((f.children i).map f.places) := by
  have hmore : f.placesFrom (f.size + 1) i = f.placesFrom f.size i := by
    refine wf.size_induction
      (motive := fun depth i => f.placesFrom (depth + 1) i = f.placesFrom depth i) ?_ hi
    intro depth i _ ih
    rw [placesFrom, placesFrom, List.map_congr_left ih]
  exact hmore.symm

/-- What stands at the places of the children side by side is what stands at the places of
each child. -/
theorem map_at?_sideBySide (f : Forest) (i : NodeId) (places : NodeId → List (List Nat)) :
    (sideBySide ((f.children i).map places)).map (f.at? i) =
      (f.children i).flatMap fun c => (places c).map (f.at? c) := by
  have hpart : ∀ e ∈ (f.children i).zipIdx,
      ((places e.1).map (e.2 :: ·)).map (f.at? i) = (places e.1).map (f.at? e.1) := by
    intro e he
    have hchild : (f.children i)[e.2]? = some e.1 := List.mem_zipIdx_iff_getElem?.mp he
    rw [List.map_map]
    refine List.map_congr_left fun path _ => ?_
    rw [Function.comp_apply, at?, hchild]
    rfl
  rw [sideBySide, List.zipIdx_map, List.flatMap_map, List.map_flatMap]
  calc (f.children i).zipIdx.flatMap (fun e => ((places e.1).map (e.2 :: ·)).map (f.at? i))
      = (f.children i).zipIdx.flatMap (fun e => (places e.1).map (f.at? e.1)) :=
        List.flatMap_congr hpart
    _ = ((f.children i).zipIdx.map Prod.fst).flatMap fun c => (places c).map (f.at? c) := by
        rw [List.flatMap_map]
    _ = (f.children i).flatMap fun c => (places c).map (f.at? c) := by
        rw [List.zipIdx_map_fst]

/-- The walk meets the nodes in the order of their places. -/
theorem WellFormed.map_at?_places (wf : f.WellFormed) (hi : i < f.size) :
    (f.places i).map (f.at? i) = (f.walk i).map some := by
  refine wf.tree_induction
    (motive := fun i => (f.places i).map (f.at? i) = (f.walk i).map some) ?_ hi
  intro i hi ih
  rw [wf.places_eq hi, wf.walk_eq hi, List.map_cons, List.map_cons, map_at?_sideBySide,
    List.flatMap_congr ih, List.map_flatMap]
  rfl

/-! ### One place for a node -/

theorem WellFormed.at?_cons (wf : f.WellFormed) {k : Nat}
    (h : f.at? i (k :: path) = some n) :
    ∃ c, (f.children i)[k]? = some c ∧ c ∈ f.children i ∧ f.Above c n ∧
      f.at? c path = some n := by
  obtain ⟨c, hc, hn⟩ := Option.bind_eq_some_iff.mp h
  have hmem := List.mem_of_getElem? hc
  have hwalk := wf.mem_walk_of_at? (wf.child_lt hmem) hn
  rw [wf.walk_eq_preorder (wf.child_lt hmem)] at hwalk
  exact ⟨c, hc, hmem, wf.above_of_mem_preorderFrom hwalk, hn⟩

theorem WellFormed.at?_inj (wf : f.WellFormed) (hi : i < f.size)
    (h : f.at? i path = some n) (h' : f.at? i other = some n) : path = other := by
  induction path generalizing i other with
  | nil =>
    cases h
    cases other with
    | nil => rfl
    | cons k other =>
      obtain ⟨c, -, hmem, habove, -⟩ := wf.at?_cons h'
      exact absurd habove (wf.not_above_of_mem_children hmem)
  | cons k path ih =>
    obtain ⟨c, hc, hmem, habove, hn⟩ := wf.at?_cons h
    cases other with
    | nil =>
      cases h'
      exact absurd habove (wf.not_above_of_mem_children hmem)
    | cons k' other =>
      obtain ⟨d, hd, hmem', habove', hn'⟩ := wf.at?_cons h'
      cases wf.eq_of_above_of_siblings hmem hmem' habove habove'
      have hk : k = k' :=
        (List.getElem?_inj (List.getElem?_eq_some_iff.mp hc).1 (wf.once i)).mp (hc.trans hd.symm)
      rw [hk, ih (wf.child_lt hmem) hn hn']

theorem WellFormed.standsAt (wf : f.WellFormed) (hr : r < f.size) (h : f.at? r path = some i) :
    f.StandsAt r i path := by
  intro other
  constructor
  · exact fun ho => wf.at?_inj hr ho h
  · rintro rfl
    exact h

/-! ### Trees of one shape -/

/-- Two trees that hold something at the same places have the same places in the same
order. -/
theorem places_congr (wf : f.WellFormed) (wg : g.WellFormed) (hi : i < f.size) (hj : j < g.size)
    (h : ∀ path, (g.fieldsAt? j path).isSome = (f.fieldsAt? i path).isSome) :
    g.places j = f.places i := by
  refine wf.tree_induction (motive := fun i => ∀ j, j < g.size →
    (∀ path, (g.fieldsAt? j path).isSome = (f.fieldsAt? i path).isSome) →
      g.places j = f.places i) ?_ hi j hj h
  intro i hi ih j hj h
  rw [wf.places_eq hi, wg.places_eq hj]
  refine congrArg (fun l => [] :: sideBySide l) (List.ext_getElem? fun k => ?_)
  rw [List.getElem?_map, List.getElem?_map]
  have hk := h [k]
  rw [fieldsAt?_cons, fieldsAt?_cons] at hk
  cases hc : (f.children i)[k]? with
  | none =>
    cases hd : (g.children j)[k]? with
    | none => rfl
    | some d =>
      rw [hc, hd] at hk
      cases hk
  | some c =>
    cases hd : (g.children j)[k]? with
    | none =>
      rw [hc, hd] at hk
      cases hk
    | some d =>
      refine congrArg some (ih c (List.mem_of_getElem? hc) d
        (wg.child_lt (List.mem_of_getElem? hd)) fun path => ?_)
      have hpath := h (k :: path)
      rwa [fieldsAt?_cons, fieldsAt?_cons, hc, hd] at hpath

end Forest
end SvgTree
