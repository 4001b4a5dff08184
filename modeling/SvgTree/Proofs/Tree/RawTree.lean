/-
Raw trees that are mappings throughout.

Such a tree names no existing node, and each of its raw nodes is read by itself.  So it can be
built just when all its raw nodes can be read, and what building ends in otherwise is the
fault of one of them.  Which one that is depends on the order of building.
-/
import SvgTree.Proofs.Tree.Insertions
import SvgTree.Proofs.Tree.NormalExport
import SvgTree.Proofs.Tree.Sprouting

namespace SvgTree

open Blueprint (named namedAll ofValue ofItems ofSequence childrenOf ownFinds findsBelow
  findsDeeper finds)
open Value (field field?)

/-- Whether an attribute was refused, or what stands in the place of one. -/
def Fault.isOfAttribute : Fault → Bool
  | .nameMissing _ | .valueNotText _ _ | .notAttribute _ => true
  | _ => false

namespace Value

/-- A mapping whose children are a list of such trees, or do not count. -/
inductive RawTree : Value → Prop where
  | node {es : List (Value × Value)} :
    ((field "children" es).isTruthy = false ∨ ∃ l, field "children" es = .list l) →
    (∀ w ∈ (Value.dict es).items, RawTree w) → RawTree (.dict es)

/-- Some raw node of the tree cannot be read, with this fault. -/
def HasFault (v : Value) (e : Fault) : Prop :=
  ∃ path es, v.rawAt? path = some (.dict es) ∧ Fields.ofEntries es = .error e

/-- Whether the attributes of a raw node are of a type that is declared for them: none, a
mapping or a set of attributes, and under `attrs`, which counts where the other key is missing,
none or a mapping. -/
def declaresAttributes (es : List (Value × Value)) : Bool :=
  match field? "attributes" es with
  | some (.dict _) | some (.attrs _) | some .null => true
  | some _ => false
  | none =>
    match field "attrs" es with
    | .dict _ | .null => true
    | _ => false

def Declared (v : Value) : Prop :=
  ∀ path es, v.rawAt? path = some (.dict es) → declaresAttributes es = true

def withoutChildren (es : List (Value × Value)) : List (Value × Value) :=
  es.filter fun e => !e.1.isText "children"

def bare : Value → Value
  | .dict es => .dict (withoutChildren es)
  | v => v

variable {v w : Value} {es : List (Value × Value)} {e : Fault}

/-! ### The raw nodes of a tree -/

theorem hasFault_iff : (Value.dict es).HasFault e ↔
    Fields.ofEntries es = .error e ∨ ∃ w ∈ (Value.dict es).items, w.HasFault e := by
  constructor
  · rintro ⟨path, os, hat, he⟩
    cases path with
    | nil =>
      cases hat
      exact .inl he
    | cons k path =>
      obtain ⟨w, hw, hat⟩ := Option.bind_eq_some_iff.mp hat
      exact .inr ⟨w, List.mem_of_getElem? hw, path, os, hat, he⟩
  · rintro (he | ⟨w, hw, path, os, hat, he⟩)
    · exact ⟨[], es, rfl, he⟩
    · obtain ⟨k, hk⟩ := List.getElem?_of_mem hw
      exact ⟨k :: path, os, Option.bind_eq_some_iff.mpr ⟨w, hk, hat⟩, he⟩

theorem isOfAttribute_of_ofEntries (hes : declaresAttributes es = true)
    (h : Fields.ofEntries es = .error e) : e.isOfAttribute = true := by
  have hset (m : Attributes) (flat : List (Value × Value)) (h : m.setAll flat = .error e) :
      e.isOfAttribute = true := by
    induction flat generalizing m with
    | nil => cases h
    | cons entry rest ih =>
      rw [Attributes.setAll] at h
      cases hone : m.set entry.1 entry.2 with
      | ok m' => exact ih m' (by rwa [hone] at h)
      | error e' =>
        rw [hone] at h
        cases h
        unfold Attributes.set Attribute.ofValues at hone
        split at hone
        · split at hone
          · split at hone <;> cases hone
            rfl
          · cases hone
            rfl
        · cases hone
          rfl
  have hput (m : Attributes) (ready : List (Value × Value)) (h : m.putAll ready = .error e) :
      e.isOfAttribute = true := by
    induction ready generalizing m with
    | nil => cases h
    | cons entry rest ih =>
      rw [Attributes.putAll] at h
      cases hone : m.putRecord entry.2 with
      | ok m' => exact ih m' (by rwa [hone] at h)
      | error e' =>
        rw [hone] at h
        cases h
        unfold Attributes.putRecord at hone
        split at hone <;> cases hone
        rfl
  have hattributes : Fields.attributesOf es = .error e := by
    unfold Fields.ofEntries at h
    split at h
    · cases h
      assumption
    · cases h
  unfold declaresAttributes at hes
  unfold Fields.attributesOf at hattributes
  split at hes
  · rename_i flat hflat
    rw [hflat] at hattributes
    exact hset .empty flat hattributes
  · rename_i m hm
    rw [hm] at hattributes
    cases hattributes
  · rename_i hnull
    rw [hnull] at hattributes
    cases hattributes
  · cases hes
  · rename_i hnone
    rw [hnone] at hattributes
    split at hes
    · rename_i ready hready
      rw [hready] at hattributes
      exact hput .empty ready hattributes
    · rename_i hnull
      rw [hnull] at hattributes
      cases hattributes
    · cases hes

theorem Declared.isOfAttribute (h : v.Declared) (he : v.HasFault e) :
    e.isOfAttribute = true := by
  obtain ⟨path, es, hat, he⟩ := he
  exact isOfAttribute_of_ofEntries (h path es hat) he

/-! ### A raw node by itself -/

theorem field?_withoutChildren {name : String} (hname : name ≠ "children")
    (es : List (Value × Value)) : field? name (withoutChildren es) = field? name es := by
  induction es with
  | nil => rfl
  | cons entry rest ih =>
    obtain ⟨k, v⟩ := entry
    rw [withoutChildren, List.filter_cons]
    by_cases hk : k.isText "children" = true
    · have hother : ¬ k.isText name = true := by
        rw [isText_iff] at hk ⊢
        rw [hk]
        exact fun h => hname (Value.text.inj h).symm
      rw [if_neg (by simp [hk]), field?, if_neg hother]
      exact ih
    · rw [if_pos (by simp [hk]), field?, field?, ← ih]
      rfl

theorem field?_children_withoutChildren (es : List (Value × Value)) :
    field? "children" (withoutChildren es) = none := by
  induction es with
  | nil => rfl
  | cons entry rest ih =>
    obtain ⟨k, v⟩ := entry
    rw [withoutChildren, List.filter_cons]
    by_cases hk : k.isText "children" = true
    · rw [if_neg (by simp [hk])]
      exact ih
    · rw [if_pos (by simp [hk]), field?, if_neg hk]
      exact ih

theorem items_bare (es : List (Value × Value)) : (Value.dict es).bare.items = [] := by
  rw [bare, items, field, field?_children_withoutChildren]
  rfl

theorem ofEntries_withoutChildren (es : List (Value × Value)) :
    Fields.ofEntries (withoutChildren es) = Fields.ofEntries es := by
  unfold Fields.ofEntries Fields.attributesOf field
  simp only [field?_withoutChildren, ne_eq, String.reduceEq, not_false_eq_true]

theorem rawTree_bare (es : List (Value × Value)) : (Value.dict es).bare.RawTree := by
  refine .node (.inl ?_) fun w hw => ?_
  · rw [field, field?_children_withoutChildren]
    rfl
  · have hnil := items_bare es
    rw [bare] at hnil
    rw [hnil] at hw
    exact absurd hw List.not_mem_nil

theorem hasFault_bare : (Value.dict es).bare.HasFault e ↔ Fields.ofEntries es = .error e := by
  have hnil := items_bare es
  rw [bare] at hnil ⊢
  rw [hasFault_iff, ofEntries_withoutChildren, hnil]
  simp

end Value

open Value (RawTree)

/-! ### Blueprints of raw trees -/

namespace Blueprint

variable {v : Value} {es : List (Value × Value)} {items : List Blueprint} {d : Find} {e : Fault}

theorem mem_finds_fresh {fields : Fields} (hnew : ∀ b ∈ items, ∀ i, b ≠ .existing i) :
    d ∈ (fresh fields items).finds ↔ ∃ b ∈ items, d ∈ b.finds := by
  rw [finds, findsBelow]
  · induction items with
    | nil => simp [ownFinds, findsDeeper]
    | cons b rest ih =>
      have ih := ih fun b hb => hnew b (List.mem_cons_of_mem _ hb)
      rw [List.mem_append] at ih
      simp only [List.mem_cons, exists_eq_or_imp, ← ih, List.mem_append]
      cases b with
      | existing i => exact absurd rfl (hnew _ List.mem_cons_self i)
      | broken e =>
        simp only [ownFinds, findsDeeper, findsBelow, finds, List.mem_cons, List.not_mem_nil,
          or_false, List.append_nil, or_assoc]
      | fresh fields inner =>
        simp only [ownFinds, findsDeeper, finds, List.mem_append]
        rw [← or_assoc, or_comm]
  · simp

theorem ofItems_eq_map (h : v.isTruthy = false ∨ ∃ l, v = .list l) :
    ofItems v = v.listed.map ofValue := by
  rcases h with h | ⟨l, rfl⟩
  · cases v with
    | list l => exact ofList_eq l
    | text s => simp_all [ofItems, Value.isTruthy, Value.listed]
    | dict entries => simp_all [ofItems, Value.isTruthy, Value.listed]
    | _ => simp [ofItems, h, Value.listed]
  · exact ofList_eq l

end Blueprint

namespace Value.RawTree

variable {v : Value} {es : List (Value × Value)} {d : Find} {e : Fault}

theorem childrenOf_eq (h : RawTree (.dict es)) :
    childrenOf es = (Value.dict es).items.map ofValue := by
  cases h with
  | node hchildren _ => rw [Blueprint.childrenOf_eq, Blueprint.ofItems_eq_map hchildren, items]

theorem item (h : RawTree (.dict es)) : ∀ w ∈ (Value.dict es).items, RawTree w := by
  cases h with
  | node _ hitems => exact hitems

theorem ofValue_error (he : Fields.ofEntries es = .error e) : ofValue (.dict es) = .broken e := by
  rw [ofValue, he, Blueprint.ofFields]

theorem ofValue_ok (h : RawTree (.dict es)) {fields : Fields}
    (hread : Fields.ofEntries es = .ok fields) :
    ofValue (.dict es) = .fresh fields ((Value.dict es).items.map ofValue) := by
  rw [ofValue, hread, Blueprint.ofFields, h.childrenOf_eq]

theorem ne_existing (h : RawTree v) (i : NodeId) : ofValue v ≠ .existing i := by
  cases h with
  | node _ _ => exact Forest.ofValue_dict_ne_existing _ i

theorem named_eq (h : RawTree v) : named (ofValue v) = [] := by
  induction h with
  | @node es hchildren hitems ih =>
    have tree : RawTree (.dict es) := .node hchildren hitems
    cases hread : Fields.ofEntries es with
    | error e => rw [ofValue_error hread, named]
    | ok fields =>
      rw [tree.ofValue_ok hread, named]
      have hall : ∀ l : List Value, (∀ w ∈ l, named (ofValue w) = []) →
          namedAll (l.map ofValue) = [] := by
        intro l hl
        induction l with
        | nil => rfl
        | cons w rest ihl =>
          rw [List.map_cons, namedAll, hl w List.mem_cons_self,
            ihl fun w hw => hl w (List.mem_cons_of_mem _ hw), List.nil_append]
      exact hall _ ih

theorem mem_finds_iff (h : RawTree (.dict es)) {fields : Fields}
    (hread : Fields.ofEntries es = .ok fields) :
    d ∈ (ofValue (.dict es)).finds ↔ ∃ w ∈ (Value.dict es).items, d ∈ (ofValue w).finds := by
  rw [h.ofValue_ok hread, Blueprint.mem_finds_fresh]
  · simp
  · intro b hb
    obtain ⟨w, hw, rfl⟩ := List.mem_map.mp hb
    exact (h.item w hw).ne_existing

theorem hasFault_of_mem_finds (h : RawTree v) (hd : d ∈ (ofValue v).finds) :
    ∃ e, d = .error e ∧ v.HasFault e := by
  induction h with
  | @node es hchildren hitems ih =>
    have tree : RawTree (.dict es) := .node hchildren hitems
    cases hread : Fields.ofEntries es with
    | error e =>
      rw [ofValue_error hread] at hd
      exact ⟨e, List.mem_singleton.mp hd, hasFault_iff.mpr (.inl hread)⟩
    | ok fields =>
      obtain ⟨w, hw, hd⟩ := (tree.mem_finds_iff hread).mp hd
      obtain ⟨e, rfl, he⟩ := ih w hw hd
      exact ⟨e, rfl, hasFault_iff.mpr (.inr ⟨w, hw, he⟩)⟩

theorem exists_find (h : RawTree v) (he : v.HasFault e) : ∃ d, d ∈ (ofValue v).finds := by
  induction h with
  | @node es hchildren hitems ih =>
    have tree : RawTree (.dict es) := .node hchildren hitems
    cases hread : Fields.ofEntries es with
    | error e' =>
      rw [ofValue_error hread]
      exact ⟨_, List.mem_singleton_self _⟩
    | ok fields =>
      rcases hasFault_iff.mp he with he | ⟨w, hw, he⟩
      · rw [hread] at he
        cases he
      · obtain ⟨d, hd⟩ := ih w hw he
        exact ⟨d, (tree.mem_finds_iff hread).mpr ⟨w, hw, hd⟩⟩

theorem finds_cases (h : RawTree v) :
    ((ofValue v).finds = [] ∧ ∀ e, ¬ v.HasFault e) ∨
      ∃ e rest, (ofValue v).finds = .error e :: rest ∧ v.HasFault e := by
  cases hfinds : (ofValue v).finds with
  | nil =>
    refine .inl ⟨rfl, fun e he => ?_⟩
    obtain ⟨d, hd⟩ := h.exists_find he
    rw [hfinds] at hd
    exact absurd hd List.not_mem_nil
  | cons d rest =>
    have hd : d ∈ (ofValue v).finds := by
      rw [hfinds]
      exact List.mem_cons_self
    obtain ⟨e, rfl, he⟩ := h.hasFault_of_mem_finds hd
    exact .inr ⟨e, rest, rfl, he⟩

end Value.RawTree

namespace Forest

variable {f g : Forest} {ofClass : NodeClass} {v : Value} {es : List (Value × Value)}

/-- `g` is `f` with a new tree for a raw one, all of one class.  Its root has no parent. -/
structure Plants (ofClass : NodeClass) (f g : Forest) (v : Value) : Prop extends
    Sprouts ofClass f g where
  wellFormed : g.WellFormed
  root_lt : f.size < g.size
  built : g.Built (ofValue v) f.size
  top : g.parent? f.size = none
  children_eq : ∀ {i : NodeId}, i < f.size → g.children i = f.children i

/-- A raw tree is built where all of it can be read, and else building ends in the fault of one
of its raw nodes. -/
theorem realize_rawTree (wf : f.WellFormed) (ofClass : NodeClass) (tree : RawTree v) :
    (∃ g, f.realize ofClass none (ofValue v) = (g, .ok f.size) ∧ Plants ofClass f g v ∧
      ∀ e, ¬ v.HasFault e) ∨
    ∃ g e, f.realize ofClass none (ofValue v) = (g, .error e) ∧ v.HasFault e := by
  have hnamed := tree.named_eq
  have hn : ∀ i ∈ named (ofValue v), i < f.size := by simp [hnamed]
  obtain ⟨g, -, -, hout⟩ := realize_spec (Underway.start wf (by simp)) ofClass tree.ne_existing hn
  rcases tree.finds_cases with ⟨hfinds, hno⟩ | ⟨e, rest, hfinds, he⟩
  · rw [hfinds] at hout
    obtain ⟨hrun, hlt⟩ : f.realize ofClass none (ofValue v) = (g, .ok f.size) ∧ f.size < g.size :=
      hout
    obtain ⟨hbuilt, -, spares, wf'⟩ := realize_built wf hn (by simp [hnamed]) hrun
    have hsprouts : Sprouts ofClass f g ∧ g.parent? f.size = none := by
      cases hb : ofValue v with
      | existing i => exact absurd hb (tree.ne_existing i)
      | broken e =>
        rw [hb] at hrun
        cases hrun
      | fresh fields items =>
        rw [hb] at hrun hnamed
        rw [named] at hnamed
        have hboth := construct_sprouts f ofClass none fields hnamed
        rw [← realize, hrun] at hboth
        exact hboth
    refine .inl ⟨g, hrun, ⟨hsprouts.1, wf', hlt, hbuilt, hsprouts.2, fun hi => ?_⟩, hno⟩
    rw [hnamed] at spares
    exact spares.children_eq hi List.not_mem_nil (by simp)
  · rw [hfinds] at hout
    exact .inr ⟨g, e, hout, he⟩

/-! ### The fields one by one -/

end Forest
end SvgTree
