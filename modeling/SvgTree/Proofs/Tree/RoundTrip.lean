/-
From a raw tree to nodes, out again, and back.

A place in a tree is the list of the places of the nodes passed on the way down from its
root.  Wrapping and export keep places, so what stands at a place of a raw tree can be
compared with what stands there in the export, and what the export is wrapped to with what
it is an export of.
-/
import SvgTree.Proofs.Tree.Construction
import SvgTree.Proofs.Tree.Export

namespace SvgTree

open Blueprint (named ofValue)
open Value (field field?)

/-! ### Places -/

namespace Value

def items : Value → List Value
  | .dict entries => (field "children" entries).listed
  | _ => []

def rawAt? (v : Value) : List Nat → Option Value
  | [] => some v
  | k :: path => (v.items[k]?).bind (·.rawAt? path)

end Value

namespace Forest

/-- The node at a place below another. -/
def at? (f : Forest) (i : NodeId) : List Nat → Option NodeId
  | [] => some i
  | k :: path => ((f.children i)[k]?).bind (f.at? · path)

def fieldsAt? (f : Forest) (i : NodeId) (path : List Nat) : Option Fields :=
  (f.at? i path).map fun j => (f.node j).toFields

variable {f g : Forest} {i n r : NodeId} {v w : Value} {path : List Nat}

theorem WellFormed.mem_walk_of_at? (wf : f.WellFormed) (hi : i < f.size)
    (h : f.at? i path = some n) : n ∈ f.walk i := by
  induction path generalizing i with
  | nil =>
    cases h
    exact wf.mem_walk_self hi
  | cons k path ih =>
    obtain ⟨c, hc, hn⟩ := Option.bind_eq_some_iff.mp h
    have hmem := List.mem_of_getElem? hc
    exact (wf.walk_child_infix hi hmem).subset (ih (wf.child_lt hmem) hn)

/-! ### What is built at a place -/

theorem Built.toFields {fields : Fields} {items : List Blueprint}
    (h : g.Built (.fresh fields items) n) :
    (g.node n).toFields = fields ∧ List.Forall₂ g.Built items (g.children n) := by
  cases h with
  | fresh hholds hitems => exact ⟨toFields_of_holds hholds, hitems⟩

theorem Built.of_dict {es : List (Value × Value)} (h : g.Built (ofValue (.dict es)) n) :
    Fields.ofEntries es = .ok (g.node n).toFields ∧
      List.Forall₂ (fun v m => g.Built (ofValue v) m) (Value.items (.dict es)) (g.children n) := by
  rw [ofValue] at h
  cases hfields : Fields.ofEntries es with
  | error e =>
    rw [hfields] at h
    cases h
  | ok fields =>
    rw [hfields] at h
    obtain ⟨heq, hitems⟩ := h.toFields
    refine ⟨by rw [heq], ?_⟩
    rw [Blueprint.childrenOf_eq] at hitems
    rcases Blueprint.ofItems_cases (field "children" es) with hlisted | ⟨e, hfault⟩
    · rw [hlisted, List.forall₂_map_left_iff] at hitems
      exact hitems
    · rw [hfault] at hitems
      generalize g.children n = ids at hitems
      cases hitems with
      | cons hb _ => cases hb

theorem Built.at? (h : g.Built (ofValue v) n) (hw : v.rawAt? path = some w) :
    ∃ m, g.at? n path = some m ∧ g.Built (ofValue w) m := by
  induction path generalizing v n with
  | nil =>
    cases hw
    exact ⟨n, rfl, h⟩
  | cons k path ih =>
    obtain ⟨u, hu, hw⟩ := Option.bind_eq_some_iff.mp hw
    cases v with
    | dict es =>
      obtain ⟨-, hitems⟩ := h.of_dict
      obtain ⟨hlt, rfl⟩ := List.getElem?_eq_some_iff.mp hu
      have hlt' : k < (g.children n).length := hitems.length_eq ▸ hlt
      obtain ⟨m, hm, hbuilt⟩ := ih (hitems.get hlt hlt') hw
      refine ⟨m, ?_, hbuilt⟩
      rw [Forest.at?, List.getElem?_eq_getElem hlt']
      exact hm
    | _ => cases hu

/-! ### What an export holds at a place -/

theorem items_exported (n : Fields) (cs : List Value) : (n.exported cs).items = cs := by
  rw [Fields.exported_eq, Value.items, field, Fields.field?_children, Fields.exportedItems]
  cases n.isContainer with
  | true => rfl
  | false => cases cs <;> rfl

theorem rawAt?_export (wf : f.WellFormed) (hi : i < f.size) (path : List Nat) :
    (f.exportFrom f.size i).rawAt? path = (f.at? i path).map (f.exportFrom f.size) := by
  induction path generalizing i with
  | nil => rfl
  | cons k path ih =>
    rw [Value.rawAt?, wf.exportFrom_eq hi, items_exported, Forest.at?, List.getElem?_map]
    cases hc : (f.children i)[k]? with
    | none => rfl
    | some c => exact ih (wf.child_lt (List.mem_of_getElem? hc))

theorem fieldsAt?_cons (f : Forest) (i : NodeId) (k : Nat) (path : List Nat) :
    f.fieldsAt? i (k :: path) = ((f.children i)[k]?).bind (f.fieldsAt? · path) := by
  rw [fieldsAt?, Forest.at?]
  cases (f.children i)[k]? <;> rfl

/-- What an export is wrapped to holds at every place what is read back there. -/
theorem Built.fieldsAt?_export (wf : f.WellFormed) (hi : i < f.size)
    (h : g.Built (ofValue (f.exportFrom f.size i)) n) (path : List Nat) :
    g.fieldsAt? n path = (f.fieldsAt? i path).map Fields.reread := by
  induction path generalizing i n with
  | nil =>
    rw [wf.exportFrom_eq hi, Blueprint.ofValue_exported] at h
    exact congrArg some h.toFields.1
  | cons k path ih =>
    rw [wf.exportFrom_eq hi, Blueprint.ofValue_exported] at h
    have hitems := h.toFields.2
    rw [List.map_map, List.forall₂_map_left_iff] at hitems
    rw [fieldsAt?_cons, fieldsAt?_cons]
    by_cases hk : k < (f.children i).length
    · have hk' : k < (g.children n).length := hitems.length_eq ▸ hk
      rw [List.getElem?_eq_getElem hk, List.getElem?_eq_getElem hk']
      exact ih (wf.child_lt (List.getElem_mem hk)) (hitems.get hk hk')
    · have hk' : ¬ k < (g.children n).length := hitems.length_eq ▸ hk
      rw [List.getElem?_eq_none (Nat.le_of_not_lt hk),
        List.getElem?_eq_none (Nat.le_of_not_lt hk')]
      rfl

end Forest

/-! ### What an export keeps of a raw node -/

def asksContainer (es : List (Value × Value)) : Bool :=
  let kind := (field "type" es).orElse (.text "element")
  kind.isText "element" || kind.isText "root"

theorem toDict_eq (m : Attributes) : m.toDict = .dict (m.entries.map Attribute.entry) := rfl

theorem of_ofEntries {es : List (Value × Value)} {n : Fields}
    (h : Fields.ofEntries es = .ok n) :
    n.kind = (field "type" es).orElse (.text "element") ∧
      n.name = (field "name" es).orElse (.text "") ∧ n.value = field "value" es ∧
      Fields.attributesOf es = .ok n.attributes := by
  unfold Fields.ofEntries at h
  split at h
  · cases h
  · rename_i m hm
    cases h
    exact ⟨rfl, rfl, rfl, hm⟩

namespace Forest

variable {f g : Forest} {raw : Value} {r : NodeId}

/-- A raw tree that was wrapped was built as a new tree of legacy nodes. -/
theorem wrap_built (wf : f.WellFormed) (hn : ∀ i ∈ named (ofValue raw), i < f.size)
    (honce : (named (ofValue raw)).Nodup) (h : f.wrap raw = (g, .ok r)) :
    g.Built (ofValue raw) r ∧ r < g.size ∧ Spares f g [] (named (ofValue raw)) ∧
      g.WellFormed := by
  unfold Forest.wrap at h
  split at h
  · cases h
  · exact realize_built wf hn honce h
  · cases h

theorem wrap_export {k : Forest} (wf : f.WellFormed) {i : NodeId} (hi : i < f.size)
    (wk : k.WellFormed) : ∃ k' s, k.wrap (f.exportFrom f.size i) = (k', .ok s) ∧
      k'.Built (ofValue (f.exportFrom f.size i)) s := by
  have hquiet := wf.quiet_export hi
  have hn : ∀ j ∈ named (ofValue (f.exportFrom f.size i)), j < k.size := by
    rw [hquiet.named_eq]
    simp
  have hwrap : k.wrap (f.exportFrom f.size i) =
      k.realize .legacy none (ofValue (f.exportFrom f.size i)) := by
    rw [wf.exportFrom_eq hi, Fields.exported_eq]
    rfl
  have hnew : ∀ j, ofValue (f.exportFrom f.size i) ≠ .existing j := by
    intro j
    rw [wf.exportFrom_eq hi, Blueprint.ofValue_exported]
    exact fun h => by cases h
  obtain ⟨k', -, -, hrun⟩ := realize_spec (Underway.start wk (by simp)) .legacy hnew hn
  rw [hquiet.finds_eq] at hrun
  obtain ⟨hrun, -⟩ : k.realize .legacy none (ofValue (f.exportFrom f.size i)) = (k', .ok k.size) ∧
    k.size < k'.size := hrun
  refine ⟨k', k.size, hwrap.trans hrun, (realize_built wk hn ?_ hrun).1⟩
  rw [hquiet.named_eq]
  exact List.nodup_nil

end Forest
end SvgTree
