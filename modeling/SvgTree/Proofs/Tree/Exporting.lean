/-
The export of a tree by drafts is the export by recursion.

Nodes wait with drafts that have no items yet.  To fill one is to put drafts for its children
behind all others, empty again, and their numbers into its items; nothing else changes.  So when
nothing waits any more a filled draft still has its items, the drafts of these are filled too,
and what is read from it, to whatever depth, is what the recursion gives.  The work ends with a
fault just where the kind of a node in the tree cannot be looked up.
-/
import SvgTree.Proofs.Tree.Order
import SvgTree.Tree.Export

namespace SvgTree

variable {f : Forest} {drafts filled last : Array RawDraft} {host id : Nat} {cs : List NodeId}
  {waiting new : List Unfilled} {w : Unfilled}

namespace Forest

/-- The export of a node and of the levels below it down to `depth`. -/
def exportFrom (f : Forest) : Nat → NodeId → Value
  | 0, _ => .null
  | depth + 1, i => (f.node i).exported ((f.children i).map (f.exportFrom depth))

def exportableFrom (f : Forest) : Nat → NodeId → Bool
  | 0, _ => true
  | depth + 1, i => (f.node i).kind.isHashable && (f.children i).all (f.exportableFrom depth)

/-! ### One draft -/

def blank (f : Forest) (i : NodeId) : RawDraft := ⟨(f.node i).toFields, #[]⟩

theorem draft_of_hashable {i : NodeId} (h : (f.node i).kind.isHashable = true) :
    f.draft i = .ok (f.blank i) :=
  if_pos h

theorem draft_of_unhashable {i : NodeId} (h : (f.node i).kind.isHashable = false) :
    f.draft i = .error .wrongOperand :=
  if_neg (by simp [h])

end Forest

namespace RawDraft

/-! ### The children of one node -/

def addAll (d : RawDraft) (ids : List Nat) : RawDraft := { d with items := d.items ++ ids }

theorem addAll_nil (d : RawDraft) : d.addAll [] = d := by
  simp [addAll]

theorem addAll_add (d : RawDraft) (id : Nat) (ids : List Nat) :
    (d.add id).addAll ids = d.addAll (id :: ids) := by
  simp only [addAll, add, RawDraft.mk.injEq, true_and]
  apply Array.toList_inj.mp
  simp

/-- What the drafting of children does: their numbers at the end of the items of the host, and
empty drafts for them behind all others. -/
structure Puts (f : Forest) (drafts filled : Array RawDraft) (host : Nat) (cs : List NodeId)
    (new : List Unfilled) : Prop where
  size_le : drafts.size ≤ filled.size
  host_eq : filled[host]? = drafts[host]?.map (·.addAll (new.map Unfilled.draft))
  other_eq : ∀ id, id < drafts.size → id ≠ host → filled[id]? = drafts[id]?
  nodes_eq : new.map Unfilled.node = cs
  fresh : ∀ w ∈ new, drafts.size ≤ w.draft ∧ filled[w.draft]? = some (f.blank w.node)
  distinct : (new.map Unfilled.draft).Nodup

theorem Puts.nil (f : Forest) (drafts : Array RawDraft) (host : Nat) :
    Puts f drafts drafts host [] [] where
  size_le := Nat.le_refl _
  host_eq := by simp only [List.map_nil, addAll_nil, Option.map_id']
  other_eq _ _ _ := rfl
  nodes_eq := rfl
  fresh _ h := absurd h List.not_mem_nil
  distinct := List.nodup_nil

theorem Puts.cons {c : NodeId} (hhost : host < drafts.size)
    (x : Puts f ((drafts.push (f.blank c)).modify host (·.add drafts.size)) filled host cs new) :
    Puts f drafts filled host (c :: cs) (⟨c, drafts.size⟩ :: new) := by
  have hsize : ((drafts.push (f.blank c)).modify host (·.add drafts.size)).size =
      drafts.size + 1 := by
    rw [Array.size_modify, Array.size_push]
  have hle := x.size_le
  rw [hsize] at hle
  have hself : filled[drafts.size]? = some (f.blank c) := by
    rw [x.other_eq drafts.size (by omega) (by omega), Array.getElem?_modify, if_neg (by omega),
      Array.getElem?_push_size]
  refine ⟨by omega, ?_, ?_, congrArg (c :: ·) x.nodes_eq, ?_, ?_⟩
  · rw [x.host_eq, Array.getElem?_modify, if_pos rfl, Array.getElem?_push_lt hhost,
      Array.getElem?_eq_getElem hhost, Option.map_some, Option.map_some, Option.map_some,
      addAll_add]
    rfl
  · intro id hid hne
    rw [x.other_eq id (by omega) hne, Array.getElem?_modify, if_neg (Ne.symm hne),
      Array.getElem?_push_lt hid, Array.getElem?_eq_getElem hid]
  · intro w hw
    rcases List.mem_cons.mp hw with rfl | hw
    · exact ⟨Nat.le_refl _, hself⟩
    · have hge := (x.fresh w hw).1
      exact ⟨by omega, (x.fresh w hw).2⟩
  · rw [List.map_cons, List.nodup_cons]
    refine ⟨fun hmem => ?_, x.distinct⟩
    obtain ⟨w, hw, heq⟩ := List.mem_map.mp hmem
    have hge := (x.fresh w hw).1
    have heq' : w.draft = drafts.size := heq
    omega

theorem putChildren_spec (hhost : host < drafts.size)
    (h : ∀ c ∈ cs, (f.node c).kind.isHashable = true) (waiting : List Unfilled) :
    ∃ filled new, putChildren f drafts host cs waiting = .ok (filled, new.reverse ++ waiting) ∧
      Puts f drafts filled host cs new := by
  induction cs generalizing drafts waiting with
  | nil => exact ⟨drafts, [], rfl, .nil f drafts host⟩
  | cons c rest ih =>
    have hput : host < ((drafts.push (f.blank c)).modify host (·.add drafts.size)).size := by
      rw [Array.size_modify, Array.size_push]
      omega
    obtain ⟨filled, new, hrun, x⟩ := ih hput (fun c hc => h c (List.mem_cons_of_mem _ hc))
      (⟨c, drafts.size⟩ :: waiting)
    refine ⟨filled, ⟨c, drafts.size⟩ :: new, ?_, x.cons hhost⟩
    rw [putChildren, Forest.draft_of_hashable (h c List.mem_cons_self), List.reverse_cons,
      List.append_assoc, List.singleton_append, ← hrun]

theorem putChildren_of_unhashable (h : ∃ c ∈ cs, (f.node c).kind.isHashable = false)
    (drafts : Array RawDraft) (host : Nat) (waiting : List Unfilled) :
    putChildren f drafts host cs waiting = .error .wrongOperand := by
  induction cs generalizing drafts waiting with
  | nil =>
    obtain ⟨c, hc, -⟩ := h
    cases hc
  | cons c rest ih =>
    rw [putChildren]
    cases hk : (f.node c).kind.isHashable with
    | false => rw [Forest.draft_of_unhashable hk]
    | true =>
      rw [Forest.draft_of_hashable hk]
      obtain ⟨d, hd, hkd⟩ := h
      rcases List.mem_cons.mp hd with rfl | hd
      · rw [hk] at hkd
        cases hkd
      · exact ih ⟨d, hd, hkd⟩ _ _

/-! ### All that waits -/

/-- The nodes that wait have drafts of their own, without items so far. -/
structure Ready (f : Forest) (drafts : Array RawDraft) (waiting : List Unfilled) : Prop where
  distinct : (waiting.map Unfilled.draft).Nodup
  node_lt : ∀ w ∈ waiting, w.node < f.size
  blank : ∀ w ∈ waiting, drafts[w.draft]? = some (f.blank w.node)

theorem Ready.lt_size (r : Ready f drafts waiting) (hw : w ∈ waiting) : w.draft < drafts.size :=
  (Array.getElem?_eq_some_iff.mp (r.blank w hw)).1

theorem Ready.top_notMem (r : Ready f drafts (w :: waiting)) :
    w.draft ∉ waiting.map Unfilled.draft :=
  (List.nodup_cons.mp r.distinct).1

/-- The node on top is taken off, and its children are put on instead. -/
theorem Ready.step (wf : f.WellFormed) (r : Ready f drafts (w :: waiting))
    (x : Puts f drafts filled w.draft (f.children w.node) new) :
    Ready f filled (new.reverse ++ waiting) := by
  refine ⟨?_, fun v hv => ?_, fun v hv => ?_⟩
  · rw [List.map_append, List.map_reverse, List.nodup_append]
    refine ⟨List.nodup_reverse.mpr x.distinct, r.distinct.of_cons, fun a ha b hb => ?_⟩
    obtain ⟨v, hv, rfl⟩ := List.mem_map.mp (List.mem_reverse.mp ha)
    obtain ⟨u, hu, rfl⟩ := List.mem_map.mp hb
    have hge := (x.fresh v hv).1
    have hlt := r.lt_size (List.mem_cons_of_mem _ hu)
    omega
  · rcases List.mem_append.mp hv with hv | hv
    · have hchild : v.node ∈ f.children w.node :=
        x.nodes_eq ▸ List.mem_map_of_mem (List.mem_reverse.mp hv)
      exact wf.child_lt hchild
    · exact r.node_lt v (List.mem_cons_of_mem _ hv)
  · rcases List.mem_append.mp hv with hv | hv
    · exact (x.fresh v (List.mem_reverse.mp hv)).2
    · have hne : v.draft ≠ w.draft := fun h => r.top_notMem (h ▸ List.mem_map_of_mem hv)
      rw [x.other_eq _ (r.lt_size (List.mem_cons_of_mem _ hv)) hne]
      exact r.blank v (List.mem_cons_of_mem _ hv)

/-- What filling does: drafts that do not wait stay, and from those that wait the exports of
their nodes are read. -/
structure Fills (f : Forest) (drafts : Array RawDraft) (waiting : List Unfilled)
    (filled : Array RawDraft) : Prop where
  other_eq : ∀ id, id < drafts.size → id ∉ waiting.map Unfilled.draft → filled[id]? = drafts[id]?
  reads : ∀ w ∈ waiting, ∀ depth, rawFrom filled depth w.draft = f.exportFrom depth w.node

theorem Fills.nil (f : Forest) (drafts : Array RawDraft) : Fills f drafts [] drafts where
  other_eq _ _ _ := rfl
  reads _ h := absurd h List.not_mem_nil

section Step

variable (x : Puts f drafts filled w.draft (f.children w.node) new)
  (y : Fills f filled (new.reverse ++ waiting) last)

include x

theorem Puts.draft_notMem (hid : id < drafts.size) (hother : id ∉ waiting.map Unfilled.draft) :
    id ∉ (new.reverse ++ waiting).map Unfilled.draft := by
  rw [List.map_append, List.mem_append, not_or]
  refine ⟨fun hmem => ?_, hother⟩
  obtain ⟨v, hv, rfl⟩ := List.mem_map.mp hmem
  have hge := (x.fresh v (List.mem_reverse.mp hv)).1
  omega

include y

/-- The draft of the node on top keeps what was put into it, and is read level by level. -/
theorem rawFrom_top (r : Ready f drafts (w :: waiting)) (depth : Nat) :
    rawFrom last depth w.draft = f.exportFrom depth w.node := by
  have hlt := r.lt_size List.mem_cons_self
  have hdraft : last[w.draft]? = some ((f.blank w.node).addAll (new.map Unfilled.draft)) := by
    rw [y.other_eq _ (Nat.lt_of_lt_of_le hlt x.size_le) (x.draft_notMem hlt r.top_notMem),
      x.host_eq, r.blank w List.mem_cons_self, Option.map_some]
  cases depth with
  | zero => rfl
  | succ depth =>
    have hbelow : (new.map Unfilled.draft).map (rawFrom last depth) =
        (f.children w.node).map (f.exportFrom depth) := by
      rw [← x.nodes_eq, List.map_map, List.map_map]
      refine List.map_congr_left fun v hv => ?_
      exact y.reads v (List.mem_append_left _ (List.mem_reverse.mpr hv)) depth
    have hitems : ((f.blank w.node).addAll (new.map Unfilled.draft)).items.toList =
        new.map Unfilled.draft := by
      simp [addAll, Forest.blank]
    rw [rawFrom, hdraft]
    show (f.node w.node).toFields.exported
      (((f.blank w.node).addAll (new.map Unfilled.draft)).items.toList.map (rawFrom last depth)) = _
    rw [hitems, hbelow, Forest.exportFrom]

theorem Fills.step (r : Ready f drafts (w :: waiting)) : Fills f drafts (w :: waiting) last where
  other_eq id hid hother := by
    rw [List.map_cons, List.mem_cons, not_or] at hother
    rw [y.other_eq id (Nat.lt_of_lt_of_le hid x.size_le) (x.draft_notMem hid hother.2),
      x.other_eq id hid hother.1]
  reads v hv depth := by
    rcases List.mem_cons.mp hv with rfl | hv
    · exact rawFrom_top x y r depth
    · exact y.reads v (List.mem_append_right _ hv) depth

end Step

/-! ### The turns that filling takes -/

/-- The number of nodes that wait, and of those below them. -/
def load (f : Forest) (waiting : List Unfilled) : Nat :=
  ((waiting.map (·.node)).flatMap f.preorder).length

theorem load_cons (wf : f.WellFormed) (hw : w.node < f.size) (waiting : List Unfilled) :
    load f (w :: waiting) =
      ((f.children w.node).flatMap f.preorder).length + 1 + load f waiting := by
  rw [load, List.map_cons, List.flatMap_cons, List.length_append, wf.preorder_eq hw,
    List.length_cons]
  rfl

/-- The node on top is one turn, and leaves its children. -/
theorem load_step (wf : f.WellFormed) (hw : w.node < f.size)
    (x : Puts f drafts filled w.draft (f.children w.node) new) :
    load f (w :: waiting) = load f (new.reverse ++ waiting) + 1 := by
  have hnew : load f new.reverse = ((f.children w.node).flatMap f.preorder).length := by
    rw [load, List.map_reverse, x.nodes_eq]
    exact ((List.reverse_perm _).flatMap_right _).length_eq
  have happend : load f (new.reverse ++ waiting) = load f new.reverse + load f waiting := by
    rw [load, List.map_append, List.flatMap_append, List.length_append]
    rfl
  rw [load_cons wf hw, happend, hnew]
  omega

theorem Ready.eq_nil (wf : f.WellFormed) (r : Ready f drafts waiting) (h : load f waiting ≤ 0) :
    waiting = [] := by
  cases waiting with
  | nil => rfl
  | cons w rest =>
    rw [load_cons wf (r.node_lt w List.mem_cons_self)] at h
    omega

end RawDraft

/-! ### The kinds that are looked up -/

namespace Forest

theorem all_of_map_eq {l k : List NodeId} {p q : NodeId → Bool} (h : l.map p = k.map q) :
    l.all p = k.all q := by
  simpa only [List.all_map, Function.id_comp] using congrArg (List.all · id) h

theorem WellFormed.exportableFrom_eq (wf : f.WellFormed) {i : NodeId} (hi : i < f.size) :
    f.exportableFrom f.size i =
      ((f.node i).kind.isHashable && (f.children i).all (f.exportableFrom f.size)) := by
  have hmore : f.exportableFrom (f.size + 1) i = f.exportableFrom f.size i := by
    refine wf.size_induction
      (motive := fun depth i => f.exportableFrom (depth + 1) i = f.exportableFrom depth i) ?_ hi
    intro depth i _ ih
    rw [exportableFrom, exportableFrom, all_of_map_eq (List.map_congr_left ih)]
  exact hmore.symm

end Forest

namespace RawDraft

/-- The kinds of all nodes below those that wait can be looked up. -/
def Exportable (f : Forest) (waiting : List Unfilled) : Prop :=
  ∀ w ∈ waiting, ∀ c ∈ f.children w.node, f.exportableFrom f.size c = true

theorem Exportable.nil (f : Forest) : Exportable f [] := fun _ hw => absurd hw List.not_mem_nil

theorem Exportable.kinds (wf : f.WellFormed) (h : Exportable f (w :: waiting)) :
    ∀ c ∈ f.children w.node, (f.node c).kind.isHashable = true := by
  intro c hc
  have hbelow := h w List.mem_cons_self c hc
  rw [wf.exportableFrom_eq (wf.child_lt hc), Bool.and_eq_true] at hbelow
  exact hbelow.1

/-- The kinds below the node on top are those of its children and those below these. -/
theorem exportable_cons_iff (wf : f.WellFormed)
    (x : Puts f drafts filled w.draft (f.children w.node) new) :
    Exportable f (w :: waiting) ↔ (∀ c ∈ f.children w.node, (f.node c).kind.isHashable = true) ∧
      Exportable f (new.reverse ++ waiting) := by
  have hchild : ∀ c ∈ f.children w.node, f.exportableFrom f.size c = true ↔
      (f.node c).kind.isHashable = true ∧ ∀ d ∈ f.children c, f.exportableFrom f.size d = true := by
    intro c hc
    rw [wf.exportableFrom_eq (wf.child_lt hc), Bool.and_eq_true, List.all_eq_true]
  have hnew : ∀ c, c ∈ f.children w.node ↔ ∃ v ∈ new, v.node = c := by
    intro c
    rw [← x.nodes_eq, List.mem_map]
  unfold Exportable
  simp only [List.forall_mem_cons, List.forall_mem_append, List.mem_reverse]
  constructor
  · rintro ⟨htop, hrest⟩
    refine ⟨fun c hc => ((hchild c hc).mp (htop c hc)).1, fun v hv => ?_, hrest⟩
    have hc := (hnew v.node).mpr ⟨v, hv, rfl⟩
    exact ((hchild _ hc).mp (htop _ hc)).2
  · rintro ⟨hkinds, hbelow, hrest⟩
    refine ⟨fun c hc => ?_, hrest⟩
    obtain ⟨v, hv, rfl⟩ := (hnew c).mp hc
    exact (hchild _ hc).mpr ⟨hkinds _ hc, hbelow v hv⟩

/-! ### The export -/

/-- With a turn for every node, drafts are filled without a fault where all kinds can be looked
up. -/
theorem fill_spec (wf : f.WellFormed) {fuel : Nat} (r : Ready f drafts waiting)
    (hload : load f waiting ≤ fuel) (h : Exportable f waiting) :
    ∃ filled, fill f fuel drafts waiting = .ok filled ∧ Fills f drafts waiting filled := by
  induction fuel generalizing drafts waiting with
  | zero =>
    rw [r.eq_nil wf hload]
    exact ⟨drafts, rfl, .nil f drafts⟩
  | succ fuel ih =>
    cases waiting with
    | nil => exact ⟨drafts, rfl, .nil f drafts⟩
    | cons w rest =>
      obtain ⟨filled, new, hrun, x⟩ :=
        putChildren_spec (r.lt_size List.mem_cons_self) (h.kinds wf) rest
      rw [load_step wf (r.node_lt w List.mem_cons_self) x] at hload
      obtain ⟨last, hlast, y⟩ := ih (r.step wf x) (Nat.le_of_succ_le_succ hload)
        ((exportable_cons_iff wf x).mp h).2
      refine ⟨last, ?_, .step x y r⟩
      rw [fill, hrun]
      exact hlast

/-- Where some kind cannot be looked up, filling comes to it. -/
theorem fill_of_not_exportable (wf : f.WellFormed) {fuel : Nat} (r : Ready f drafts waiting)
    (hload : load f waiting ≤ fuel) (h : ¬ Exportable f waiting) :
    fill f fuel drafts waiting = .error .wrongOperand := by
  induction fuel generalizing drafts waiting with
  | zero =>
    rw [r.eq_nil wf hload] at h
    exact absurd (.nil f) h
  | succ fuel ih =>
    cases waiting with
    | nil => exact absurd (.nil f) h
    | cons w rest =>
      by_cases hkinds : ∀ c ∈ f.children w.node, (f.node c).kind.isHashable = true
      · obtain ⟨filled, new, hrun, x⟩ :=
          putChildren_spec (r.lt_size List.mem_cons_self) hkinds rest
        rw [load_step wf (r.node_lt w List.mem_cons_self) x] at hload
        rw [fill, hrun]
        exact ih (r.step wf x) (Nat.le_of_succ_le_succ hload) fun hrest =>
          h ((exportable_cons_iff wf x).mpr ⟨hkinds, hrest⟩)
      · simp only [not_forall, Bool.not_eq_true] at hkinds
        obtain ⟨c, hc, hk⟩ := hkinds
        rw [fill, putChildren_of_unhashable ⟨c, hc, hk⟩]

end RawDraft

namespace Forest

/-- The worklist gives the export by recursion, and fails where the recursion would have to look
up a kind that cannot be looked up. -/
theorem WellFormed.toRaw_eq_exportFrom (wf : f.WellFormed) {i : NodeId} (hi : i < f.size) :
    f.toRaw i = if f.exportableFrom f.size i then .ok (f.exportFrom f.size i)
      else .error .wrongOperand := by
  rw [wf.exportableFrom_eq hi, toRaw]
  cases hkind : (f.node i).kind.isHashable with
  | false => rw [draft_of_unhashable hkind, Bool.false_and, if_neg Bool.false_ne_true]
  | true =>
    rw [draft_of_hashable hkind, Bool.true_and]
    have r : RawDraft.Ready f #[f.blank i] [⟨i, 0⟩] := by
      refine ⟨List.nodup_singleton _, fun w hw => ?_, fun w hw => ?_⟩
      · rw [List.mem_singleton.mp hw]
        exact hi
      · rw [List.mem_singleton.mp hw]
        rfl
    have hload : RawDraft.load f [⟨i, 0⟩] ≤ f.size := by
      have hlen := wf.length_preorder_le hi
      simpa [RawDraft.load] using hlen
    have hbelow : RawDraft.Exportable f [⟨i, 0⟩] ↔
        (f.children i).all (f.exportableFrom f.size) = true := by
      simp [RawDraft.Exportable]
    by_cases h : RawDraft.Exportable f [⟨i, 0⟩]
    · obtain ⟨filled, hrun, y⟩ := RawDraft.fill_spec wf r hload h
      rw [if_pos (hbelow.mp h)]
      simp only [hrun, Except.map, y.reads _ List.mem_cons_self]
    · rw [if_neg (hbelow.not.mp h)]
      simp only [RawDraft.fill_of_not_exportable wf r hload h, Except.map]

end Forest
end SvgTree
