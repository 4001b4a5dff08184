/-
The exact effect of a construction that takes existing nodes.

Such a construction fails just where an item is the given parent or stands above it, at the
first such item.  Else the new node holds what the items became, a node that is named again only
where it is named last, and these nodes have left every other list.  Nothing else has moved.

A construction over the list of children of another node does the same with every other of
them only.
-/
import SvgTree.Proofs.Tree.FailedConstruction
import SvgTree.Proofs.Tree.Gathering
import SvgTree.Proofs.Tree.Skipping
import SvgTree.Proofs.Tree.SpliceEffect

namespace SvgTree

open Blueprint (named namedAll finds ownFinds findsBelow findsDeeper ofValue)

namespace Value

def nodesAmong : List Value → List NodeId
  | [] => []
  | .node i :: rest => i :: nodesAmong rest
  | _ :: rest => nodesAmong rest

end Value

open Value (nodesAmong)

namespace Find

variable {barred : List NodeId} {l : List NodeId}

theorem taken_map_ok (h : ∀ i ∈ l, i ∉ barred) : taken barred (l.map .ok) = l := by
  induction l with
  | nil => rfl
  | cons i rest ih =>
    rw [List.map_cons, taken, if_neg (h i List.mem_cons_self),
      ih fun j hj => h j (List.mem_cons_of_mem _ hj)]

theorem stop?_map_ok (barred l : List NodeId) :
    stop? barred (l.map .ok) = (l.find? fun i => i ∈ barred).map .ok := by
  induction l with
  | nil => rfl
  | cons i rest ih =>
    rw [List.map_cons, stop?, List.find?_cons, ih]
    by_cases hi : i ∈ barred <;> simp [hi]

end Find

namespace Forest

variable {f g : Forest} {ofClass : NodeClass} {parent : Option NodeId} {fields : Fields}
  {items : List Value} {ids : List NodeId} {n : NodeId}

/-! ### Items -/

theorem IsItem.gatherable {v : Value} (h : f.IsItem ofClass v) : Gatherable f.size (ofValue v) := by
  cases v with
  | node i => exact .inl ⟨i, by rw [ofValue], h⟩
  | dict entries => exact .inr h.1
  | _ => exact absurd h (by simp [IsItem])

/-- A construction comes across the nodes among its items and nothing else. -/
theorem finds_items (wf : f.WellFormed) (hitems : ∀ v ∈ items, f.IsItem ofClass v) :
    ownFinds (items.map ofValue) = (nodesAmong items).map .ok ∧
      findsDeeper (items.map ofValue) = [] := by
  induction items with
  | nil => exact ⟨rfl, rfl⟩
  | cons v rest ih =>
    obtain ⟨hown, hdeeper⟩ := ih fun v hv => hitems v (List.mem_cons_of_mem _ hv)
    have hv := hitems v List.mem_cons_self
    rw [List.map_cons, findsDeeper, hdeeper, List.nil_append]
    cases v with
    | node i =>
      rw [ofValue, ownFinds, hown]
      exact ⟨rfl, by rw [findsBelow]⟩
    | dict entries =>
      have hnone := finds_of_isItem wf hv
      cases hb : ofValue (.dict entries) with
      | existing i => exact absurd hb (ofValue_dict_ne_existing entries i)
      | broken e =>
        rw [hb, finds] at hnone
        cases hnone
      | fresh fields inner =>
        rw [hb] at hnone
        rw [ownFinds]
        exact ⟨hown, hnone⟩
    | _ => exact absurd hv (by simp [IsItem])

theorem named_lt_items (hitems : ∀ v ∈ items, f.IsItem ofClass v) :
    ∀ i ∈ namedAll (items.map ofValue), i < f.size := by
  induction items with
  | nil => exact fun i hi => absurd hi (by simp [namedAll])
  | cons v rest ih =>
    intro i hi
    rw [List.map_cons, namedAll, List.mem_append] at hi
    rcases hi with hi | hi
    · rcases (hitems v List.mem_cons_self).gatherable with ⟨j, heq, hj⟩ | hnone
      · rw [heq, named, List.mem_singleton] at hi
        exact hi ▸ hj
      · rw [hnone] at hi
        cases hi
    · exact ih (fun v hv => hitems v (List.mem_cons_of_mem _ hv)) i hi

theorem ofSequence_list (items : List Value) :
    Blueprint.ofSequence (.list items) = items.map ofValue := by
  rw [Blueprint.ofSequence, Blueprint.ofItems]
  induction items with
  | nil => rfl
  | cons v rest ih => rw [Blueprint.ofList, ih, List.map_cons]

/-! ### What a construction has gathered -/

inductive ItemNode (f g : Forest) : Value → NodeId → Prop where
  | node (i : NodeId) : ItemNode f g (.node i) i
  | raw {entries : List (Value × Value)} {n : NodeId} : f.size < n →
    Built g (ofValue (.dict entries)) n → ItemNode f g (.dict entries) n

structure Holding (f g : Forest) (ofClass : NodeClass) (parent : Option NodeId) (fields : Fields)
    (items : List Value) (ids : List NodeId) : Prop where
  size_lt : f.size < g.size
  holds_eq : g.holds f.size = some (fields, ofClass)
  parent_eq : g.parent? f.size = parent
  children_eq : g.children f.size = ids.dedup
  became : List.Forall₂ (ItemNode f g) items ids
  once_new : (ids.filter fun i => f.size ≤ i).Nodup
  class_new : ∀ i, f.size ≤ i → i < g.size → (g.node i).ofClass = ofClass

theorem forall₂_itemNode {h : Forest} {left : List Pending}
    (made : List.Forall₂ (Made h left) (items.map ofValue) ids)
    (hbuilt : ∀ {b : Blueprint} {n : NodeId}, Made h left b n → Built g b n)
    (hnew : ∀ p ∈ left, f.size < p.host) (hitems : ∀ v ∈ items, f.IsItem ofClass v) :
    List.Forall₂ (ItemNode f g) items ids := by
  rw [List.forall₂_map_left_iff] at made
  induction made with
  | nil => exact .nil
  | @cons v n rest ids hmade _ ih =>
    refine .cons ?_ (ih fun v hv => hitems v (List.mem_cons_of_mem _ hv))
    have hv := hitems v List.mem_cons_self
    cases v with
    | node i =>
      rw [ofValue] at hmade
      cases hmade
      exact .node _
    | dict entries =>
      refine .raw ?_ (hbuilt hmade)
      cases hb : ofValue (.dict entries) with
      | existing i => exact absurd hb (ofValue_dict_ne_existing entries i)
      | broken e =>
        rw [hb] at hmade
        cases hmade
      | fresh fields inner =>
        rw [hb] at hmade
        cases hmade with
        | fresh _ hleft => exact hnew _ hleft
    | _ => exact absurd hv (by simp [IsItem])

theorem gathering_add (wf : f.WellFormed) (hp : ∀ p ∈ parent, p < f.size) (ofClass : NodeClass)
    (fields : Fields) :
    Gathering f.size (f.add ⟨fields, ofClass, parent, []⟩).1 f.size [] where
  wellFormed := wf.add rfl hp
  le := Nat.le_of_lt (lt_size_add ..)
  ready _ hp := absurd hp List.not_mem_nil
  bare _ hp := absurd hp List.not_mem_nil
  distinct := List.nodup_nil
  once := List.nodup_nil
  apart := List.not_mem_nil
  new := Nat.le_refl _
  host_lt := lt_size_add ..
  unnamed := rfl

theorem construct_ok {bs : List Blueprint}
    (hrun : f.construct ofClass parent fields bs = (g, .ok n)) :
    ∃ h left, (f.add ⟨fields, ofClass, parent, []⟩).1.attachItems f.size bs [] = (h, .ok left) ∧
      h.attach left = (g, .ok ()) := by
  obtain ⟨-, hall⟩ := attach_of_construct hrun
  rw [attach] at hall
  split at hall
  · cases hall
  · rename_i h left hitems
    exact ⟨h, left, hitems, hall⟩

theorem construct_holding (wf : f.WellFormed) (hp : ∀ p ∈ parent, p < f.size)
    (hitems : ∀ v ∈ items, f.IsItem ofClass v)
    (hrun : f.construct ofClass parent fields (items.map ofValue) = (g, .ok n)) :
    ∃ ids, Holding f g ofClass parent fields items ids := by
  have x := gathering_add wf hp ofClass fields
  have start := Sprouts.add f fields ofClass parent
  have hclass := start.class_eq (Nat.le_refl _) x.host_lt
  obtain ⟨h, left, hfirst, hrest⟩ := construct_ok hrun
  have hgather : ∀ b ∈ items.map ofValue, Gatherable f.size b := by
    intro b hb
    obtain ⟨v, hv, rfl⟩ := List.mem_map.mp hb
    exact (hitems v hv).gatherable
  obtain ⟨ids, y⟩ := attachItems_gathers x hgather hfirst
  obtain ⟨hbuilt, spares, -⟩ := attach_built y.toPoised hrest
  -- What waits makes new nodes only, of the same class.
  have hhost : (h.node f.size).ofClass = ofClass := by
    rw [ofClass_node_congr (y.holds_eq x.host_lt), hclass]
  have hclass' : ∀ {j : NodeId}, f.size ≤ j → j < h.size → (h.node j).ofClass = ofClass := by
    intro j hle hlt
    rcases Nat.lt_or_ge j (f.add ⟨fields, ofClass, parent, []⟩).1.size with hj | hj
    · rw [ofClass_node_congr (y.holds_eq hj), start.class_eq hle hj]
    · rw [y.class_new hj hlt, hclass]
  have hwaits : ∀ p ∈ left, WaitsForNew ofClass h p := by
    intro p hp
    have hready := y.ready p hp
    refine ⟨hready.host_lt, hclass' hready.new hready.host_lt, ?_⟩
    exact List.flatMap_eq_nil_iff.mp y.unnamed p hp
  have sprouts := attach_sprouts hwaits
  rw [hrest] at sprouts
  have hne : ∀ p ∈ left, f.size < p.host := by
    intro p hp
    refine Nat.lt_of_le_of_ne (y.ready p hp).new fun heq => y.apart ?_
    exact heq ▸ List.mem_map_of_mem hp
  have hself : f.size < h.size := y.host_lt
  refine ⟨ids, Nat.lt_of_lt_of_le hself sprouts.size_le, ?_, ?_, ?_, ?_, y.once_new, ?_⟩
  · rw [sprouts.holds_eq hself, y.holds_eq x.host_lt, holds_add, if_pos rfl]
  · rw [sprouts.parent_eq hself, y.parent_host, parent?_add, if_pos rfl]
  · rw [spares.children_eq hself y.apart (by rw [y.unnamed]; simp), y.children_host, children_add,
      if_pos rfl]
    rfl
  · exact forall₂_itemNode y.made (fun m => m.built y.toPoised spares hbuilt) hne hitems
  · intro i hle hlt
    rcases Nat.lt_or_ge i h.size with hi | hi
    · rw [ofClass_node_congr (sprouts.holds_eq hi), hclass' hle hi]
    · exact sprouts.class_eq hi hlt

/-! ### The given parent and what stands above it -/

def AtOrAbove (f : Forest) (parent : Option NodeId) (i : NodeId) : Prop := ∃ q ∈ parent, f.Above i q

theorem WellFormed.mem_barredBy_iff (wf : f.WellFormed) (hp : ∀ p ∈ parent, p < f.size)
    {i : NodeId} : i ∈ f.barredBy parent ↔ f.AtOrAbove parent i := by
  rcases wf.barredBy_cases hp with ⟨rfl, hnil⟩ | ⟨q, rfl, -, hclimb⟩
  · rw [hnil]
    refine ⟨fun hi => absurd hi List.not_mem_nil, ?_⟩
    rintro ⟨q, hq, -⟩
    cases hq
  · constructor
    · exact fun hi => ⟨q, rfl, _, hclimb, hi⟩
    · rintro ⟨q', hq, l, hl, hi⟩
      cases hq
      rwa [hl.unique hclimb] at hi

structure FirstAbove (f : Forest) (parent : Option NodeId) (nodes : List NodeId) (i : NodeId) :
    Prop where
  split : ∃ before rest, nodes = before ++ i :: rest ∧ ∀ j ∈ before, ¬ f.AtOrAbove parent j
  above : f.AtOrAbove parent i

theorem firstAbove_iff (wf : f.WellFormed) (hp : ∀ p ∈ parent, p < f.size) {nodes : List NodeId}
    {i : NodeId} :
    f.FirstAbove parent nodes i ↔ (nodes.find? fun j => j ∈ f.barredBy parent) = some i := by
  rw [List.find?_eq_some_iff_append, decide_eq_true_iff, wf.mem_barredBy_iff hp]
  constructor
  · rintro ⟨⟨before, rest, hsplit, hbefore⟩, habove⟩
    refine ⟨habove, before, rest, hsplit, fun j hj => ?_⟩
    rw [Bool.not_eq_true', decide_eq_false_iff_not, wf.mem_barredBy_iff hp]
    exact hbefore j hj
  · rintro ⟨habove, before, rest, hsplit, hbefore⟩
    refine ⟨⟨before, rest, hsplit, fun j hj => ?_⟩, habove⟩
    have hj' := hbefore j hj
    rwa [Bool.not_eq_true', decide_eq_false_iff_not, wf.mem_barredBy_iff hp] at hj'

theorem exists_firstAbove_iff (wf : f.WellFormed) (hp : ∀ p ∈ parent, p < f.size)
    {nodes : List NodeId} :
    (∃ i, f.FirstAbove parent nodes i) ↔ ∃ i ∈ nodes, f.AtOrAbove parent i := by
  simp only [firstAbove_iff wf hp, ← Option.isSome_iff_exists, List.find?_isSome,
    decide_eq_true_iff, wf.mem_barredBy_iff hp]

/-! ### The effect -/

/-- What a construction leaves whose items became `ids`. -/
structure Adopted (f g : Forest) (ofClass : NodeClass) (parent : Option NodeId) (fields : Fields)
    (items : List Value) (ids : List NodeId) : Prop extends
    Holding f g ofClass parent fields items ids where
  parent_child : ∀ c ∈ ids, g.parent? c = some f.size
  children_old : ∀ p, p < f.size → g.children p = without (f.children p) ids
  parent_old : ∀ i, i < f.size → i ∉ ids → g.parent? i = f.parent? i
  holds_old : ∀ i, i < f.size → g.holds i = f.holds i

theorem mem_nodesAmong_iff (h : List.Forall₂ (ItemNode f g) items ids) {i : NodeId}
    (hi : i < f.size) : i ∈ nodesAmong items ↔ i ∈ ids := by
  induction h with
  | nil => rfl
  | cons hitem _ ih =>
    cases hitem with
    | node j => rw [nodesAmong, List.mem_cons, List.mem_cons, ih]
    | raw hnew _ =>
      rw [nodesAmong, ih, List.mem_cons]
      · exact ⟨.inr, fun h => h.resolve_left (Nat.ne_of_lt (Nat.lt_trans hi hnew))⟩
      · simp

theorem construct_adopted (wf : f.WellFormed) (hp : ∀ p ∈ parent, p < f.size)
    (hitems : ∀ v ∈ items, f.IsItem ofClass v)
    (hclear : ∀ i ∈ nodesAmong items, ¬ f.AtOrAbove parent i) :
    ∃ g ids, f.construct ofClass parent fields (items.map ofValue) = (g, .ok f.size) ∧
      Adopted f g ofClass parent fields items ids := by
  obtain ⟨hown, hdeeper⟩ := finds_items wf hitems
  obtain ⟨g, hg, -, hrun⟩ := construct_spec (wf.underway hp) ofClass fields
    (wf.barredBy_cases hp) (named_lt_items hitems)
  have hnot : ∀ i ∈ nodesAmong items, i ∉ f.barredBy parent := fun i hi hmem =>
    hclear i hi ((wf.mem_barredBy_iff hp).mp hmem)
  have hnone : ((nodesAmong items).find? fun i => i ∈ f.barredBy parent) = none := by
    rw [List.find?_eq_none]
    exact fun i hi => by simp [hnot i hi]
  rw [hown, hdeeper, List.append_nil] at hg hrun
  rw [answer_of_none (by rw [Find.stop?_map_ok, hnone]; rfl)] at hrun
  rw [Find.taken_map_ok hnot, List.nil_append] at hg
  obtain ⟨ids, hholding⟩ := construct_holding wf hp hitems hrun
  have hmem {i : NodeId} (hi : i < f.size) : i ∈ nodesAmong items ↔ i ∈ ids :=
    mem_nodesAmong_iff hholding.became hi
  refine ⟨g, ids, hrun, hholding, ?_, ?_, ?_, fun i hi => hg.holds_eq hi⟩
  · intro c hc
    refine hg.wellFormed.held ?_
    rw [hholding.children_eq]
    exact List.mem_dedup.mpr hc
  · intro p hlt
    rw [hg.children_eq hlt]
    exact without_congr fun c hc => hmem (wf.child_lt hc)
  · intro i hlt hi
    exact hg.parent_eq hlt fun h => hi ((hmem hlt).mp h)

theorem lt_of_mem_nodesAmong (hitems : ∀ v ∈ items, f.IsItem ofClass v) {i : NodeId}
    (hi : i ∈ nodesAmong items) : i < f.size := by
  induction items with
  | nil => cases hi
  | cons v rest ih =>
    have hrest := ih fun v hv => hitems v (List.mem_cons_of_mem _ hv)
    cases v with
    | node j =>
      rcases List.mem_cons.mp hi with rfl | hi
      · exact hitems (.node i) List.mem_cons_self
      · exact hrest hi
    | _ => exact hrest hi

/-- A construction of items that fails has come to the first node that stands in its way, and
has left what nodes hold. -/
theorem construct_error_iff (wf : f.WellFormed) (hp : ∀ p ∈ parent, p < f.size)
    (hitems : ∀ v ∈ items, f.IsItem ofClass v) (fields : Fields) :
    (∀ e, (f.construct ofClass parent fields (items.map ofValue)).2 = .error e ↔
        ∃ i, f.FirstAbove parent (nodesAmong items) i ∧
          e = (f.construct ofClass parent fields (items.map ofValue)).1.refusal i .adoptCycle) ∧
      ∀ i, i < f.size →
        (f.construct ofClass parent fields (items.map ofValue)).1.holds i = f.holds i := by
  obtain ⟨hown, hdeeper⟩ := finds_items wf hitems
  obtain ⟨g, hg, -, hrun⟩ := construct_spec (wf.underway hp) ofClass fields
    (wf.barredBy_cases hp) (named_lt_items hitems)
  rw [hown, hdeeper, List.append_nil] at hrun
  rw [hrun]
  refine ⟨fun e => ?_, fun i hi => hg.holds_eq hi⟩
  simp only [answer, Find.stop?_map_ok, firstAbove_iff wf hp]
  cases (nodesAmong items).find? fun j => j ∈ f.barredBy parent with
  | none => simp
  | some i => simp [faultOf, eq_comm]

theorem nodesAmong_map_node (l : List NodeId) : nodesAmong (l.map .node) = l := by
  induction l with
  | nil => rfl
  | cons i rest ih => rw [List.map_cons, nodesAmong, ih]

theorem eq_of_itemNode {l : List NodeId} (h : List.Forall₂ (ItemNode f g) (l.map .node) ids) :
    ids = l := by
  rw [List.forall₂_map_left_iff] at h
  induction h with
  | nil => rfl
  | cons hitem _ ih =>
    cases hitem
    rw [ih]

section Create

variable {m : Attributes} {attributes : Value} (hm : Attributes.ofInput attributes = .ok m)
  (ofClass : NodeClass) (parent : Option NodeId) (kind name value : Value)

include hm

theorem create_list (f : Forest) (items : List Value) :
    f.create ofClass parent kind name value attributes (.list items) =
      f.construct ofClass parent { kind, name, value, attributes := m } (items.map ofValue) := by
  rw [create, hm, ofSequence_list]

/-- A construction over the list of children of a node has every other of them for its items. -/
theorem createOver_eq_create (wf : f.WellFormed) (hp : ∀ p ∈ parent, p < f.size) {source : NodeId}
    (hsource : source < f.size) :
    f.createOver ofClass parent kind name value attributes source =
      f.create ofClass parent kind name value attributes
        (.list ((everyOther (f.children source)).map .node)) := by
  have hitems : ((everyOther (f.children source)).map Value.node).map ofValue =
      (everyOther (f.children source)).map .existing := by
    rw [List.map_map]
    exact List.map_congr_left fun i _ => by rw [Function.comp_apply, ofValue]
  rw [create_list hm, hitems, createOver_eq wf hp ofClass kind name value attributes hm hsource]

theorem createOver_children_iff (wf : f.WellFormed) (hp : ∀ p ∈ parent, p < f.size)
    {source : NodeId} (hsource : source < f.size)
    (hclear : ∀ i ∈ f.children source, ¬ f.AtOrAbove parent i) :
    (f.createOver ofClass parent kind name value attributes source).1.children f.size =
      f.children source ↔ (f.children source).length ≤ 1 := by
  have hsub := everyOther_sublist (f.children source)
  have hitems : ∀ v ∈ (everyOther (f.children source)).map .node, f.IsItem ofClass v := by
    intro v hv
    obtain ⟨i, hi, rfl⟩ := List.mem_map.mp hv
    exact wf.child_lt (hsub.subset hi)
  have hfree : ∀ i ∈ nodesAmong ((everyOther (f.children source)).map .node),
      ¬ f.AtOrAbove parent i := by
    rw [nodesAmong_map_node]
    exact fun i hi => hclear i (hsub.subset hi)
  obtain ⟨g, ids, hrun, a⟩ : ∃ g ids, _ = (g, _) ∧
      Adopted f g ofClass parent { kind, name, value, attributes := m } _ ids :=
    construct_adopted wf hp hitems hfree
  rw [createOver_eq_create hm ofClass parent kind name value wf hp hsource, create_list hm, hrun,
    a.children_eq, eq_of_itemNode a.became, List.dedup_eq_self.mpr ((wf.once source).sublist hsub)]
  exact everyOther_eq_self_iff

end Create

/-- A construction with sound attributes of items that are nodes, or raw nodes that can be built
and name no node, under any parent of a reachable forest.  It fails just where a node among the
items is that parent or stands above it, and it refuses the first such node, with the refusal
itself for the fault where kind and name of the node are texts.  Else its effect is the one of
`Adopted`.  Over the list of children of a node it does what it does with every other of them for
items, so that the new node has them all only where there is at most one. -/
theorem Reachable.adoption_effect (hf : f.Reachable) (hp : ∀ p ∈ parent, p < f.size)
    (hitems : ∀ v ∈ items, f.IsItem ofClass v) (kind name value attributes : Value)
    {m : Attributes} (hm : Attributes.ofInput attributes = .ok m) :
    ((∃ e, (f.create ofClass parent kind name value attributes (.list items)).2 = .error e) ↔
        ∃ i ∈ nodesAmong items, f.AtOrAbove parent i) ∧
      (∀ e, (f.create ofClass parent kind name value attributes (.list items)).2 = .error e ↔
        ∃ i, f.FirstAbove parent (nodesAmong items) i ∧
          e = (f.create ofClass parent kind name value attributes (.list items)).1.refusal i
            .adoptCycle) ∧
      (∀ i, f.FirstAbove parent (nodesAmong items) i →
        (∃ s, (f.node i).kind = .text s) → (∃ s, (f.node i).name = .text s) →
          (f.create ofClass parent kind name value attributes (.list items)).2 =
            .error (.adoptCycle i)) ∧
      ((∀ i ∈ nodesAmong items, ¬ f.AtOrAbove parent i) →
        ∃ g ids, f.create ofClass parent kind name value attributes (.list items) =
            (g, .ok f.size) ∧
          Adopted f g ofClass parent { kind, name, value, attributes := m } items ids) ∧
      ∀ source, source < f.size →
        f.createOver ofClass parent kind name value attributes source =
            f.create ofClass parent kind name value attributes
              (.list ((everyOther (f.children source)).map .node)) ∧
          ((∀ i ∈ f.children source, ¬ f.AtOrAbove parent i) →
            ((f.createOver ofClass parent kind name value attributes source).1.children f.size =
                f.children source ↔ (f.children source).length ≤ 1)) := by
  have wf := hf.wellFormed
  obtain ⟨hfault, hholds⟩ := construct_error_iff wf hp hitems
    { kind, name, value, attributes := m }
  rw [← create_list hm] at hfault hholds
  refine ⟨?_, hfault, ?_, fun hclear => ?_, fun source hsource => ⟨?_, fun hclear => ?_⟩⟩
  · simp only [hfault, ← exists_firstAbove_iff wf hp]
    constructor
    · rintro ⟨_, i, hi, -⟩
      exact ⟨i, hi⟩
    · rintro ⟨i, hi⟩
      exact ⟨_, i, hi, rfl⟩
  · intro i hi hkind hname
    obtain ⟨before, rest, hsplit, -⟩ := hi.split
    have hlt : i < f.size := lt_of_mem_nodesAmong hitems (by simp [hsplit])
    have hsame := toFields_node_congr (hholds i hlt)
    refine (hfault _).mpr ⟨i, hi, ?_⟩
    rw [refusal, obstacle_of_texts (hsame ▸ hkind) (hsame ▸ hname), Option.getD_none]
  · rw [create_list hm]
    exact construct_adopted wf hp hitems hclear
  · exact createOver_eq_create hm ofClass parent kind name value wf hp hsource
  · exact createOver_children_iff hm ofClass parent kind name value wf hp hsource hclear

/-- A raw node between `b`, which stands below `a`, and `c` and `a`, and then `c` again. -/
def mixedNodes : List Value :=
  [.node 3, .node 2, .dict [(.text "name", .text "e")], .node 1, .node 2]

/-- The nodes come under a new one in this order, `c` where it is named last, and leave the root
and `a`. -/
theorem adoption_effect_of_rooted :
    (Forest.empty.afterAll rootedCalls).Reachable ∧
      (∀ v ∈ mixedNodes, (Forest.empty.afterAll rootedCalls).IsItem .legacy v) ∧
      Attributes.ofInput .null = .ok Attributes.empty ∧
      ∃ g, (Forest.empty.afterAll rootedCalls).create .legacy (some 0) (.text "element")
          (.text "g") .null .null (.list mixedNodes) = (g, .ok 4) ∧
        (∃ n, 4 < n ∧ g.children 4 = [3, n, 1, 2] ∧ g.parent? n = some 4) ∧
        g.parent? 4 = some 0 ∧ g.parent? 1 = some 4 ∧ g.parent? 2 = some 4 ∧
        g.parent? 3 = some 4 ∧ g.children 0 = [] ∧ g.children 1 = [] := by
  have reach : (Forest.empty.afterAll rootedCalls).Reachable :=
    ⟨rootedCalls, by decide +kernel, rfl⟩
  have size : (Forest.empty.afterAll rootedCalls).size = 4 := by decide +kernel
  have parent : ∀ p ∈ some 0, p < (Forest.empty.afterAll rootedCalls).size := by decide +kernel
  have items : ∀ v ∈ mixedNodes, (Forest.empty.afterAll rootedCalls).IsItem .legacy v := by
    intro v hv
    have hv' : v = .node 3 ∨ v = .node 2 ∨ v = .dict [(.text "name", .text "e")] ∨
        v = .node 1 := by
      simp only [mixedNodes, List.mem_cons, List.not_mem_nil, or_false] at hv
      tauto
    rcases hv' with rfl | rfl | rfl | rfl
    · show 3 < (Forest.empty.afterAll rootedCalls).size
      rw [size]
      decide
    · show 2 < (Forest.empty.afterAll rootedCalls).size
      rw [size]
      decide
    · exact ⟨by decide +kernel, by decide +kernel⟩
    · show 1 < (Forest.empty.afterAll rootedCalls).size
      rw [size]
      decide
  have clear : ∀ i ∈ nodesAmong mixedNodes,
      ¬ (Forest.empty.afterAll rootedCalls).AtOrAbove (some 0) i := by
    intro i hi
    rw [← reach.wellFormed.mem_barredBy_iff parent]
    revert i
    decide +kernel
  obtain ⟨-, -, -, effect, -⟩ :=
    reach.adoption_effect parent items (.text "element") (.text "g") .null .null rfl
  obtain ⟨g, ids, hrun, a⟩ := effect clear
  have became := a.became
  simp only [mixedNodes, List.forall₂_cons_left_iff, List.forall₂_nil_left_iff] at became
  obtain ⟨_, _, ⟨⟩, ⟨_, _, ⟨⟩, ⟨n, _, hraw, ⟨_, _, ⟨⟩, ⟨_, _, ⟨⟩, rfl, rfl⟩, rfl⟩, rfl⟩, rfl⟩,
    rfl⟩ := became
  have hn : 4 < n := by
    cases hraw with
    | raw hlt _ => exact size ▸ hlt
  have new {i : Nat} (hi : i < 4) : n ≠ i := Nat.ne_of_gt (Nat.lt_trans hi hn)
  have order : ([3, 2, n, 1, 2] : List NodeId).dedup = [3, n, 1, 2] := by
    rw [List.dedup_cons_of_notMem (by simp [(new (by decide : 3 < 4)).symm]),
      List.dedup_cons_of_mem (by simp),
      List.dedup_cons_of_notMem (by simp [new (by decide : 1 < 4), new (by decide : 2 < 4)])]
    rfl
  have children := a.children_eq
  have self := a.parent_eq
  have child := a.parent_child
  rw [size] at hrun children self child
  refine ⟨reach, items, rfl, g, hrun, ⟨n, hn, children.trans order, child n (by simp)⟩, self,
    child 1 (by simp), child 2 (by simp), child 3 (by simp), ?_, ?_⟩
  · rw [a.children_old 0 (by rw [size]; decide)]
    have before : (Forest.empty.afterAll rootedCalls).children 0 = [1, 2] := by decide +kernel
    rw [before]
    simp [without]
  · rw [a.children_old 1 (by rw [size]; decide)]
    have before : (Forest.empty.afterAll rootedCalls).children 1 = [3] := by decide +kernel
    rw [before]
    simp [without]

/-- A new node over the list of the children of a root gets the first and the third of three, and
the root keeps the second.  And a node whose kind is a list, put under a new node that has it for
its parent, makes the construction fail, but not with a refusal. -/
theorem adoption_passes_over :
    (Forest.empty.afterAll rowCalls).Reachable ∧
      (Forest.empty.afterAll rowCalls).children 0 = [1, 2, 3] ∧
      ((Forest.empty.afterAll rowCalls).createOver .legacy none (.text "element") (.text "g")
        .null .null 0).2.toOption = some 4 ∧
      ((Forest.empty.afterAll rowCalls).createOver .legacy none (.text "element") (.text "g")
        .null .null 0).1.children 4 = [1, 3] ∧
      ((Forest.empty.afterAll rowCalls).createOver .legacy none (.text "element") (.text "g")
        .null .null 0).1.children 0 = [2] ∧
      (Forest.empty.afterAll unnamedCalls).Reachable ∧
      ((Forest.empty.afterAll unnamedCalls).create .legacy (some 1) (.text "element") (.text "g")
        .null .null (.list [.node 1])).2.mapError Fault.isRefusal = .error false := by
  have row : (Forest.empty.afterAll rowCalls).Reachable := ⟨rowCalls, by decide +kernel, rfl⟩
  have unnamed : (Forest.empty.afterAll unnamedCalls).Reachable :=
    ⟨unnamedCalls, by decide +kernel, rfl⟩
  exact ⟨row, by decide +kernel, by decide +kernel, by decide +kernel, by decide +kernel, unnamed,
    by decide +kernel⟩

end Forest
end SvgTree
