/-
Exports and what is read from them.

The export of a node is the export of its fields with the exports of its children.  An
element or a root comes out with all it holds and is read back as it was; of any other node
the kind and the value come out, and it is read back without a name and without attributes.
-/
import SvgTree.Proofs.Attribute.Insert
import SvgTree.Proofs.Tree.Exporting
import SvgTree.Proofs.Tree.Finds

namespace SvgTree
namespace Value

def entry (key : String) (v : Option Value) : List (Value × Value) :=
  (v.map fun v => (.text key, v)).toList

theorem field?_entry (name key : String) (v : Option Value) :
    field? name (entry key v) = if key = name then v else none := by
  cases v with
  | none => simp [entry, field?]
  | some v => simp [entry, field?, isText]

theorem field?_append (name : String) (a b : List (Value × Value)) :
    field? name (a ++ b) = (field? name a).or (field? name b) := by
  induction a with
  | nil => rfl
  | cons e rest ih =>
    obtain ⟨k, v⟩ := e
    rw [List.cons_append, field?, field?, ih]
    split <;> rfl

def listed : Value → List Value
  | list items => items
  | _ => []

def given? : Value → Option Value
  | null => none
  | v => some v

theorem getD_given? (v : Value) : v.given?.getD null = v := by
  cases v <;> rfl

end Value

open Value (field field? entry)

/-! ### The fields of one node -/

namespace Fields

variable (n : Fields) (cs : List Value)

def exportedName : Option Value := if n.isContainer && n.name.isTruthy then some n.name else none

def exportedAttributes : Option Value :=
  if n.isContainer then some n.attributes.toDict else none

def exportedItems : Option Value := if n.isContainer || !cs.isEmpty then some (.list cs) else none

def exportedEntries : List (Value × Value) :=
  entry "type" (some n.kind) ++ entry "name" n.exportedName ++
    entry "attributes" n.exportedAttributes ++ entry "value" n.value.given? ++
    entry "children" (n.exportedItems cs)

theorem exported_eq : n.exported cs = .dict (n.exportedEntries cs) := by
  unfold exported exportedEntries exportedName exportedAttributes exportedItems
  cases n.isContainer <;> cases n.name.isTruthy <;> cases cs.isEmpty <;> cases n.value <;> rfl

theorem field?_type : field? "type" (n.exportedEntries cs) = some n.kind := by
  simp [exportedEntries, Value.field?_append, Value.field?_entry]

theorem field?_name : field? "name" (n.exportedEntries cs) = n.exportedName := by
  simp [exportedEntries, Value.field?_append, Value.field?_entry]

theorem field?_attributes :
    field? "attributes" (n.exportedEntries cs) = n.exportedAttributes := by
  simp [exportedEntries, Value.field?_append, Value.field?_entry]

theorem field?_attrs : field? "attrs" (n.exportedEntries cs) = none := by
  simp [exportedEntries, Value.field?_append, Value.field?_entry]

theorem field_value : field "value" (n.exportedEntries cs) = n.value := by
  simp [field, exportedEntries, Value.field?_append, Value.field?_entry, Value.getD_given?]

theorem field?_children : field? "children" (n.exportedEntries cs) = n.exportedItems cs := by
  simp [exportedEntries, Value.field?_append, Value.field?_entry]

/-- The fields as they are read back from an export: a kind that does not count is `element`,
and only elements and roots have kept a name and attributes. -/
def reread : Fields where
  kind := n.kind.orElse (.text "element")
  name := if n.isContainer then n.name.orElse (.text "") else .text ""
  value := n.value
  attributes := if n.isContainer then n.attributes else .empty

/-- An element or a root is read back with its kind and its attributes, and its name answers
as before. -/
theorem reread_of_container {n : Fields} (h : n.isContainer = true) :
    n.reread = { n with name := n.name.orElse (.text "") } := by
  have hkind : n.kind.orElse (.text "element") = n.kind := by
    rw [isContainer, Bool.or_eq_true, Value.isText_iff, Value.isText_iff] at h
    rcases h with h | h <;> rw [h] <;> rfl
  rw [reread, if_pos h, if_pos h, hkind]

theorem reread_of_isContainer {n : Fields} {s : String} (hc : n.isContainer = true)
    (hname : n.name = .text s) : n.reread = n := by
  have htext : n.name.orElse (.text "") = n.name := by rw [hname, Value.orElse_empty_text]
  rw [reread_of_container hc, htext]

theorem ofMapping_toDict (m : Attributes) : Attributes.ofMapping m.toDict = .ok m := by
  have h := Attributes.setAll_entries .empty m.entries
  rw [← Attributes.ofList, Attributes.ofList_entries] at h
  exact h

theorem attributesOf_exported :
    attributesOf (n.exportedEntries cs) = .ok n.reread.attributes := by
  unfold attributesOf field
  rw [field?_attributes, field?_attrs, exportedAttributes, reread]
  cases n.isContainer with
  | true => exact ofMapping_toDict n.attributes
  | false => rfl

theorem ofEntries_exported : ofEntries (n.exportedEntries cs) = .ok n.reread := by
  have hname : (field "name" (n.exportedEntries cs)).orElse (.text "") = n.reread.name := by
    rw [field, field?_name, exportedName, reread]
    cases n.isContainer with
    | false => rfl
    | true =>
      cases ht : n.name.isTruthy with
      | true => rfl
      | false =>
        have hempty : n.name.orElse (.text "") = .text "" := by
          rw [Value.orElse, ht]
          rfl
        rw [if_pos rfl, hempty]
        rfl
  have hkind : field "type" (n.exportedEntries cs) = n.kind := by
    rw [field, field?_type]
    rfl
  rw [ofEntries, attributesOf_exported]
  simp only [hname, hkind, field_value]
  rfl

end Fields

/-! ### Blueprints of exports -/

namespace Blueprint

theorem ofList_eq (l : List Value) : ofList l = l.map ofValue := by
  induction l with
  | nil => rfl
  | cons v rest ih => rw [ofList, ih, List.map_cons]

theorem childrenOf_eq (entries : List (Value × Value)) :
    childrenOf entries = ofItems (field "children" entries) := by
  induction entries with
  | nil => rfl
  | cons e rest ih =>
    obtain ⟨k, v⟩ := e
    rw [childrenOf, field, field?]
    by_cases hk : k.isText "children" = true
    · rw [if_pos hk, if_pos hk]
      rfl
    · rw [if_neg hk, if_neg hk, ih]
      rfl

theorem ofItems_cases (v : Value) :
    ofItems v = v.listed.map ofValue ∨ ∃ e, ofItems v = [.broken e] := by
  cases v with
  | list l => exact .inl (ofList_eq l)
  | _ =>
    simp only [ofItems]
    split
    · first
      | exact .inl rfl
      | exact .inr ⟨_, rfl⟩
    · first
      | exact .inl rfl
      | exact .inr ⟨_, rfl⟩

/-- The blueprint of an export asks for the fields as they are read back, and for what the
children come to. -/
theorem ofValue_exported (n : Fields) (cs : List Value) :
    ofValue (n.exported cs) = .fresh n.reread (cs.map ofValue) := by
  have hitems : childrenOf (n.exportedEntries cs) = cs.map ofValue := by
    rw [childrenOf_eq, field, Fields.field?_children, Fields.exportedItems]
    cases n.isContainer with
    | true => exact ofList_eq cs
    | false =>
      cases cs with
      | nil => rfl
      | cons c rest => exact ofList_eq (c :: rest)
  rw [Fields.exported_eq, ofValue, Fields.ofEntries_exported, hitems, ofFields]

/-- Building comes across no existing node and no fault. -/
structure Quiet (b : Blueprint) : Prop where
  named_eq : b.named = []
  ownFinds_eq : ownFinds [b] = []
  findsBelow_eq : b.findsBelow = []

theorem quiet_fresh (fields : Fields) {items : List Blueprint} (h : ∀ b ∈ items, b.Quiet) :
    (fresh fields items).Quiet := by
  have hall : namedAll items = [] ∧ ownFinds items = [] ∧ findsDeeper items = [] := by
    induction items with
    | nil => exact ⟨rfl, rfl, rfl⟩
    | cons b rest ih =>
      obtain ⟨hnamed, hown, hbelow⟩ := h b List.mem_cons_self
      obtain ⟨hnamed', hown', hdeeper⟩ := ih fun b hb => h b (List.mem_cons_of_mem _ hb)
      refine ⟨by rw [namedAll, hnamed, hnamed']; rfl, ?_,
        by rw [findsDeeper, hdeeper, hbelow]; rfl⟩
      cases b with
      | existing i => cases hown
      | broken e => cases hown
      | fresh fields inner => exact hown'
  refine ⟨?_, rfl, ?_⟩
  · rw [named, hall.1]
  · rw [findsBelow, hall.2.1, hall.2.2]
    rfl

theorem Quiet.finds_eq {b : Blueprint} (h : b.Quiet) : b.finds = [] := by
  cases b with
  | existing i => exact h.findsBelow_eq
  | broken e => cases h.ownFinds_eq
  | fresh fields items => exact h.findsBelow_eq

end Blueprint

/-! ### The export of a tree -/

namespace Forest
namespace WellFormed

variable {f : Forest} {i : NodeId}

/-- The export of a node as far down as there can be nodes: its fields, with the exports of its
children. -/
theorem exportFrom_eq (wf : f.WellFormed) (hi : i < f.size) :
    f.exportFrom f.size i =
      (f.node i).toFields.exported ((f.children i).map (f.exportFrom f.size)) := by
  have hmore : f.exportFrom (f.size + 1) i = f.exportFrom f.size i := by
    refine wf.size_induction
      (motive := fun depth i => f.exportFrom (depth + 1) i = f.exportFrom depth i) ?_ hi
    intro depth i _ ih
    rw [exportFrom, exportFrom, List.map_congr_left ih]
  exact hmore.symm

theorem toRaw_eq (wf : f.WellFormed) (hi : i < f.size)
    (h : ∀ j ∈ f.walk i, (f.node j).kind.isHashable = true) :
    f.toRaw i = .ok (f.exportFrom f.size i) := by
  have hexportable : f.exportableFrom f.size i = true := by
    refine wf.size_induction (motive := fun depth i =>
      (∀ j ∈ f.walk i, (f.node j).kind.isHashable = true) → f.exportableFrom depth i = true) ?_ hi h
    intro depth i hi ih h
    rw [exportableFrom, h i (wf.mem_walk_self hi), Bool.true_and, List.all_eq_true]
    intro c hc
    exact ih c hc fun j hj => h j ((wf.walk_child_infix hi hc).subset hj)
  rw [wf.toRaw_eq_exportFrom hi, if_pos hexportable]

theorem quiet_export (wf : f.WellFormed) (hi : i < f.size) :
    (Blueprint.ofValue (f.exportFrom f.size i)).Quiet := by
  refine wf.tree_induction
    (motive := fun i => (Blueprint.ofValue (f.exportFrom f.size i)).Quiet) ?_ hi
  intro i hi ih
  rw [wf.exportFrom_eq hi, Blueprint.ofValue_exported, List.map_map]
  refine Blueprint.quiet_fresh _ fun b hb => ?_
  obtain ⟨c, hc, rfl⟩ := List.mem_map.mp hb
  exact ih c hc

end WellFormed
end Forest
end SvgTree
