/-
Drafts come to the raw tree of the element.

Elements wait with drafts that have no items yet.  To fill one is to put pieces at its end and
new drafts, empty again, behind all others; nothing else changes.  So when nothing waits any
more a filled draft still has its pieces, each of the drafts among them stands behind it and is
filled too, and what is read from it is the raw tree given by recursion.  The work ends without
a fault just where all names that are read can be qualified.
-/
import SvgTree.Proofs.Markup.Content

namespace SvgTree
namespace Markup

open Element (plain plainAll textNodes rawNode)

variable {e : Element} {d : Draft}

/-! ### The draft of one element -/

theorem qualifyAll_eq_ok_iff {attributes : List (String × String)}
    {done entries : List (Value × Value)} :
    Element.qualifyAll attributes done = .ok entries ↔ (∀ a ∈ attributes, ClosedName a.1) ∧
      entries = (attributes.map usualEntry).foldl (fun done e => Value.putEntry e.1 e.2 done) done := by
  induction attributes generalizing done with
  | nil => simp [Element.qualifyAll, eq_comm]
  | cons a rest ih =>
    obtain ⟨name, value⟩ := a
    rw [Element.qualifyAll, List.map_cons, List.foldl_cons, List.forall_mem_cons]
    cases hname : qualify name with
    | error f =>
      have hopen : ¬ ClosedName name := fun h => by
        rw [qualify_eq_ok_iff.mpr ⟨h, rfl⟩] at hname
        cases hname
      simp [hopen]
    | ok q =>
      obtain ⟨hclosed, rfl⟩ := qualify_eq_ok_iff.mp hname
      simp only [ih, hclosed, true_and]
      rfl

theorem isNone_tag_of_draft (h : e.draft = .ok d) : e.tag.isNone = false := by
  cases e with
  | mk tag attributes text tail children =>
    cases tag with
    | none => cases h
    | some tag => rfl

theorem Element.plain_of_tag {tag : String} (h : e.tag = some tag) :
    e.plain = rawNode (usualName tag) (Value.collect (e.attributes.map usualEntry))
      (textNodes e.text ++ plainAll e.children) := by
  cases e
  cases h
  rw [plain]
  rfl

theorem draft_eq_ok_iff : e.draft = .ok d ↔ ∃ tag, e.tag = some tag ∧ ClosedName tag ∧
    (∀ a ∈ e.attributes, ClosedName a.1) ∧
      d = ⟨usualName tag, Value.collect (e.attributes.map usualEntry), #[]⟩ := by
  obtain ⟨tag, attributes, text, tail, children⟩ := e
  cases tag with
  | none => simp [Element.draft, Element.tag]
  | some tag =>
    simp only [Element.tag, Element.attributes, Option.some.injEq, exists_eq_left']
    constructor
    · intro h
      rw [Element.draft] at h
      split at h
      · cases h
      · cases h
      · rename_i name entries hname hentries
        obtain ⟨hclosed, rfl⟩ := qualify_eq_ok_iff.mp hname
        obtain ⟨hall, rfl⟩ := qualifyAll_eq_ok_iff.mp hentries
        cases h
        exact ⟨hclosed, hall, rfl⟩
    · rintro ⟨hclosed, hall, rfl⟩
      rw [Element.draft, qualify_eq_ok_iff.mpr ⟨hclosed, rfl⟩, qualifyAll_eq_ok_iff.mpr ⟨hall, rfl⟩]
      rfl

theorem wellNamed_iff : e.WellNamed ↔ (∃ d, e.draft = .ok d) ∧
    ∀ c ∈ e.children, c.tag.isNone = false → c.WellNamed := by
  constructor
  · rintro ⟨htag, hattributes, hchildren⟩
    exact ⟨⟨_, draft_eq_ok_iff.mpr ⟨_, rfl, htag, hattributes, rfl⟩⟩, hchildren⟩
  · rintro ⟨⟨d, hd⟩, hchildren⟩
    obtain ⟨tag, htag, hclosed, hattributes, -⟩ := draft_eq_ok_iff.mp hd
    cases e
    cases htag
    exact .mk hclosed hattributes hchildren

namespace Draft

variable {drafts filled : Array Draft} {host id : Nat} {pieces more : List Piece}
  {children : List Element} {waiting left new : List Waiting}

/-! ### The children of one element -/

theorem add_nil (d : Draft) : d.add [] = d := by
  simp [add]

theorem toList_items_add (d : Draft) (pieces : List Piece) :
    (d.add pieces).items.toList = d.items.toList ++ pieces :=
  Array.toList_appendList

theorem add_add (d : Draft) (pieces more : List Piece) :
    (d.add pieces).add more = d.add (pieces ++ more) := by
  simp only [add, Draft.mk.injEq, true_and]
  apply Array.toList_inj.mp
  simp

theorem getElem?_put (drafts : Array Draft) (host : Nat) (pieces : List Piece) (id : Nat) :
    (put drafts host pieces)[id]? =
      if host = id then drafts[id]?.map (·.add pieces) else drafts[id]? :=
  Array.getElem?_modify

theorem size_put (drafts : Array Draft) (host : Nat) (pieces : List Piece) :
    (put drafts host pieces).size = drafts.size :=
  Array.size_modify

/-- The pieces that children are put down as, those with a tag as drafts that wait. -/
inductive LaidOut (new : List Waiting) : List Element → List Piece → Prop where
  | nil : LaidOut new [] []
  | dropped {c : Element} {rest : List Element} {pieces : List Piece} :
    c.tag.isNone = true → LaidOut new rest pieces →
      LaidOut new (c :: rest) (textPieces c.tail ++ pieces)
  | kept {c : Element} {rest : List Element} {pieces : List Piece} {id : Nat} :
    c.tag.isNone = false → ⟨c, id⟩ ∈ new → LaidOut new rest pieces →
      LaidOut new (c :: rest) (.node id :: textPieces c.tail ++ pieces)

theorem LaidOut.mono (h : LaidOut new children pieces) (hsub : new ⊆ waiting) :
    LaidOut waiting children pieces := by
  induction h with
  | nil => exact .nil
  | dropped hnone _ ih => exact .dropped hnone ih
  | kept hsome hmem _ ih => exact .kept hsome (hsub hmem) ih

/-- What putting down children does: pieces at the end of the host, and empty drafts for the
elements in `new` behind all others. -/
structure Lays (drafts filled : Array Draft) (host : Nat) (children : List Element)
    (pieces : List Piece) (new : List Waiting) : Prop where
  size_le : drafts.size ≤ filled.size
  host_eq : filled[host]? = drafts[host]?.map (·.add pieces)
  other_eq : ∀ id, id < drafts.size → id ≠ host → filled[id]? = drafts[id]?
  fresh : ∀ w ∈ new, drafts.size ≤ w.draft ∧ w.element ∈ children ∧
    ∃ d, w.element.draft = .ok d ∧ filled[w.draft]? = some d
  distinct : (new.map Waiting.draft).Nodup
  laid : LaidOut new children pieces

theorem Lays.nil (drafts : Array Draft) (host : Nat) : Lays drafts drafts host [] [] [] where
  size_le := Nat.le_refl _
  host_eq := by simp only [add_nil, Option.map_id']
  other_eq _ _ _ := rfl
  fresh _ h := absurd h List.not_mem_nil
  distinct := List.nodup_nil
  laid := .nil

theorem Lays.dropped {c : Element} (hnone : c.tag.isNone = true)
    (x : Lays (put drafts host (textPieces c.tail)) filled host children pieces new) :
    Lays drafts filled host (c :: children) (textPieces c.tail ++ pieces) new where
  size_le := by
    have hle := x.size_le
    rwa [size_put] at hle
  host_eq := by
    rw [x.host_eq, getElem?_put, if_pos rfl, Option.map_map]
    exact congrArg (drafts[host]?.map ·) (funext fun d => d.add_add _ _)
  other_eq id hid hne := by
    rw [x.other_eq id (by rwa [size_put]) hne, getElem?_put, if_neg (Ne.symm hne)]
  fresh w hw := by
    obtain ⟨hle, hmem, hd⟩ := x.fresh w hw
    rw [size_put] at hle
    exact ⟨hle, List.mem_cons_of_mem _ hmem, hd⟩
  distinct := x.distinct
  laid := .dropped hnone x.laid

theorem Lays.kept {c : Element} (hhost : host < drafts.size) (hsome : c.tag.isNone = false)
    {d : Draft} (hd : c.draft = .ok d)
    (x : Lays (put (drafts.push d) host (.node drafts.size :: textPieces c.tail)) filled host
      children pieces new) :
    Lays drafts filled host (c :: children) (.node drafts.size :: textPieces c.tail ++ pieces)
      (new ++ [⟨c, drafts.size⟩]) := by
  have hsize : (put (drafts.push d) host (.node drafts.size :: textPieces c.tail)).size =
      drafts.size + 1 := by
    rw [size_put, Array.size_push]
  have hle := x.size_le
  rw [hsize] at hle
  refine ⟨by omega, ?_, ?_, ?_, ?_, ?_⟩
  · rw [x.host_eq, getElem?_put, if_pos rfl, Array.getElem?_push_lt hhost,
      Array.getElem?_eq_getElem hhost, Option.map_some, Option.map_some, add_add]
    rfl
  · intro id hid hne
    rw [x.other_eq id (by omega) hne, getElem?_put, if_neg (Ne.symm hne),
      Array.getElem?_push_lt hid, Array.getElem?_eq_getElem hid]
  · intro w hw
    rcases List.mem_append.mp hw with hw | hw
    · obtain ⟨hge, hmem, hdraft⟩ := x.fresh w hw
      exact ⟨by omega, List.mem_cons_of_mem _ hmem, hdraft⟩
    · rw [List.mem_singleton.mp hw]
      refine ⟨Nat.le_refl _, List.mem_cons_self, d, hd, ?_⟩
      rw [x.other_eq drafts.size (by omega) (by omega), getElem?_put, if_neg (by omega),
        Array.getElem?_push_size]
  · rw [List.map_append, List.nodup_append]
    refine ⟨x.distinct, List.nodup_singleton _, fun a ha b hb => ?_⟩
    obtain ⟨w, hw, rfl⟩ := List.mem_map.mp ha
    have hge := (x.fresh w hw).1
    rw [List.mem_singleton.mp hb]
    show w.draft ≠ drafts.size
    omega
  · exact .kept hsome (List.mem_append_right _ (List.mem_singleton_self _))
      (x.laid.mono (List.subset_append_left _ _))

section Put

/- The element's own text is put into its draft before its children are. -/
variable (x : Lays (put drafts host more) filled host children pieces new)

include x

theorem Lays.size_le_of_put : drafts.size ≤ filled.size := by
  have hle := x.size_le
  rwa [size_put] at hle

theorem Lays.le_draft_of_put {w : Waiting} (hw : w ∈ new) : drafts.size ≤ w.draft := by
  have hle := (x.fresh w hw).1
  rwa [size_put] at hle

theorem Lays.other_eq_of_put (hid : id < drafts.size) (hne : id ≠ host) :
    filled[id]? = drafts[id]? := by
  rw [x.other_eq id (by rwa [size_put]) hne, getElem?_put, if_neg (Ne.symm hne)]

end Put

theorem putChildren_spec (hhost : host < drafts.size)
    (h : ∀ c ∈ children, c.tag.isNone = false → ∃ d, c.draft = .ok d) (waiting : List Waiting) :
    ∃ filled pieces new, putChildren drafts host children waiting = .ok (filled, new ++ waiting) ∧
      Lays drafts filled host children pieces new := by
  induction children generalizing drafts waiting with
  | nil => exact ⟨drafts, [], [], rfl, .nil drafts host⟩
  | cons c rest ih =>
    have hrest := fun c hc => h c (List.mem_cons_of_mem _ hc)
    rw [putChildren]
    cases hnone : c.tag.isNone with
    | true =>
      have hput : host < (put drafts host (textPieces c.tail)).size := by rwa [size_put]
      obtain ⟨filled, pieces, new, hrun, x⟩ := ih hput hrest waiting
      exact ⟨filled, _, new, hrun, x.dropped hnone⟩
    | false =>
      obtain ⟨d, hd⟩ := h c List.mem_cons_self hnone
      have hput :
          host < (put (drafts.push d) host (.node drafts.size :: textPieces c.tail)).size := by
        rw [size_put, Array.size_push]
        omega
      obtain ⟨filled, pieces, new, hrun, x⟩ := ih hput hrest (⟨c, drafts.size⟩ :: waiting)
      refine ⟨filled, _, new ++ [⟨c, drafts.size⟩], ?_, x.kept hhost hnone hd⟩
      rw [List.append_assoc, List.singleton_append, ← hrun, hd]
      rfl

/-! ### All that waits -/

/-- The elements that wait have drafts of their own, without items so far. -/
structure Ready (drafts : Array Draft) (waiting : List Waiting) : Prop where
  distinct : (waiting.map Waiting.draft).Nodup
  blank : ∀ w ∈ waiting, ∃ d, w.element.draft = .ok d ∧ drafts[w.draft]? = some d

/-- What is read from a draft when nothing waits any more is the raw tree of its element.  It
is enough to read as deep as there are drafts from it on. -/
def Reads (drafts : Array Draft) (w : Waiting) : Prop :=
  ∀ depth, drafts.size ≤ w.draft + depth → rawFrom drafts depth w.draft = w.element.plain

theorem Ready.lt_size (r : Ready drafts waiting) {w : Waiting} (hw : w ∈ waiting) :
    w.draft < drafts.size := by
  obtain ⟨d, -, hd⟩ := r.blank w hw
  exact (Array.getElem?_eq_some_iff.mp hd).1

theorem Ready.host_lt {w : Waiting} (r : Ready drafts (w :: waiting)) :
    w.draft < (put drafts w.draft (textPieces w.element.text)).size := by
  rw [size_put]
  exact r.lt_size List.mem_cons_self

theorem Ready.top_notMem {w : Waiting} (r : Ready drafts (w :: waiting)) :
    w.draft ∉ waiting.map Waiting.draft :=
  (List.nodup_cons.mp r.distinct).1

/-- The element on top is taken off, and the new ones are put on instead. -/
theorem Ready.step {w : Waiting} (r : Ready drafts (w :: waiting))
    (x : Lays (put drafts w.draft (textPieces w.element.text)) filled w.draft children pieces new) :
    Ready filled (new ++ waiting) := by
  refine ⟨?_, fun v hv => ?_⟩
  · rw [List.map_append, List.nodup_append]
    refine ⟨x.distinct, r.distinct.of_cons, fun a ha b hb => ?_⟩
    obtain ⟨v, hv, rfl⟩ := List.mem_map.mp ha
    obtain ⟨u, hu, rfl⟩ := List.mem_map.mp hb
    have hge := x.le_draft_of_put hv
    have hlt := r.lt_size (List.mem_cons_of_mem _ hu)
    omega
  · rcases List.mem_append.mp hv with hv | hv
    · exact (x.fresh v hv).2.2
    · obtain ⟨d, hd, hblank⟩ := r.blank v (List.mem_cons_of_mem _ hv)
      have hne : v.draft ≠ w.draft := fun h => r.top_notMem (h ▸ List.mem_map_of_mem hv)
      have hlt := r.lt_size (List.mem_cons_of_mem _ hv)
      exact ⟨d, hd, by rw [x.other_eq_of_put hlt hne, hblank]⟩

theorem map_textPieces (read : Nat → Value) (text : Option String) :
    (textPieces text).map (Piece.raw read) = textNodes text := by
  rw [textPieces, List.map_map, Element.textNodes_eq]
  rfl

/-- The pieces of children are read as what the children stand for, where this is so for each
of the new drafts. -/
theorem LaidOut.map_raw {read : Nat → Value} (h : LaidOut new children pieces)
    (hread : ∀ w ∈ new, read w.draft = w.element.plain) :
    pieces.map (Piece.raw read) = plainAll children := by
  induction h with
  | nil => rfl
  | dropped hnone _ ih =>
    rw [List.map_append, map_textPieces, ih, plainAll, if_pos hnone]
    rfl
  | kept hsome hmem _ ih =>
    rw [List.cons_append, List.map_cons, List.map_append, map_textPieces, ih, plainAll,
      if_neg (by rw [hsome]; decide)]
    exact congrArg (· :: _) (hread _ hmem)

/-- What filling does: drafts that do not wait stay, and those that wait come to the raw trees
of their elements. -/
structure Fills (drafts : Array Draft) (waiting : List Waiting) (filled : Array Draft) : Prop where
  size_le : drafts.size ≤ filled.size
  other_eq : ∀ id, id < drafts.size → id ∉ waiting.map Waiting.draft → filled[id]? = drafts[id]?
  reads : ∀ w ∈ waiting, Reads filled w

theorem Fills.nil (drafts : Array Draft) : Fills drafts [] drafts where
  size_le := Nat.le_refl _
  other_eq _ _ _ := rfl
  reads _ h := absurd h List.not_mem_nil

section Step

variable {w : Waiting} {last : Array Draft}

theorem draft_notMem (x : Lays (put drafts host more) filled host children pieces new)
    (hid : id < drafts.size) (hother : id ∉ waiting.map Waiting.draft) :
    id ∉ (new ++ waiting).map Waiting.draft := by
  rw [List.map_append, List.mem_append, not_or]
  refine ⟨fun hmem => ?_, hother⟩
  obtain ⟨v, hv, rfl⟩ := List.mem_map.mp hmem
  have hge := x.le_draft_of_put hv
  omega

/-- The draft of the element on top keeps what was put into it, and is read level by level. -/
theorem reads_top (r : Ready drafts (w :: waiting))
    (x : Lays (put drafts w.draft (textPieces w.element.text)) filled w.draft w.element.children
      pieces new)
    (y : Fills filled (new ++ waiting) last) : Reads last w := by
  intro depth hdepth
  obtain ⟨d, hd, hblank⟩ := r.blank w List.mem_cons_self
  have hlt := r.lt_size List.mem_cons_self
  have hfilled := x.size_le_of_put
  have hlast := y.size_le
  have hdraft : last[w.draft]? = some (d.add (textPieces w.element.text ++ pieces)) := by
    rw [y.other_eq _ (by omega) (draft_notMem x hlt r.top_notMem), x.host_eq, getElem?_put, if_pos rfl,
      hblank, Option.map_some, Option.map_some, add_add]
  obtain ⟨tag, htag, -, -, rfl⟩ := draft_eq_ok_iff.mp hd
  cases depth with
  | zero => omega
  | succ depth =>
    have hbelow : pieces.map (Piece.raw (rawFrom last depth)) = plainAll w.element.children := by
      refine x.laid.map_raw fun v hv => y.reads v (List.mem_append_left _ hv) depth ?_
      have hge := x.le_draft_of_put hv
      omega
    rw [Element.plain_of_tag htag, rawFrom, hdraft, ← hbelow, ← map_textPieces (rawFrom last depth),
      ← List.map_append]
    simp only [toList_items_add]
    rfl

theorem Fills.step (r : Ready drafts (w :: waiting))
    (x : Lays (put drafts w.draft (textPieces w.element.text)) filled w.draft w.element.children
      pieces new)
    (y : Fills filled (new ++ waiting) last) : Fills drafts (w :: waiting) last := by
  have hfilled := x.size_le_of_put
  refine ⟨Nat.le_trans hfilled y.size_le, fun id hid hother => ?_, fun v hv => ?_⟩
  · rw [List.map_cons, List.mem_cons, not_or] at hother
    rw [y.other_eq id (by omega) (draft_notMem x hid hother.2), x.other_eq_of_put hid hother.1]
  · rcases List.mem_cons.mp hv with rfl | hv
    · exact reads_top r x y
    · exact y.reads v (List.mem_append_right _ hv)

end Step

/-- Elements that are well named have their drafts filled without a fault. -/
theorem fill_spec (r : Ready drafts waiting) (h : ∀ w ∈ waiting, w.element.WellNamed) :
    ∃ filled, fill drafts waiting = .ok filled ∧ Fills drafts waiting filled := by
  induction drafts, waiting using fill.induct with
  | case1 drafts => exact ⟨drafts, by rw [fill], .nil drafts⟩
  | case2 drafts w rest f hf =>
    obtain ⟨-, hchildren⟩ := wellNamed_iff.mp (h w List.mem_cons_self)
    obtain ⟨filled, pieces, new, hrun, -⟩ := putChildren_spec r.host_lt
      (fun c hc hsome => (wellNamed_iff.mp (hchildren c hc hsome)).1) rest
    rw [hrun] at hf
    cases hf
  | case3 drafts w rest filled left hf ih =>
    obtain ⟨-, hchildren⟩ := wellNamed_iff.mp (h w List.mem_cons_self)
    obtain ⟨_, pieces, new, hrun, x⟩ := putChildren_spec r.host_lt
      (fun c hc hsome => (wellNamed_iff.mp (hchildren c hc hsome)).1) rest
    rw [hrun] at hf
    cases hf
    obtain ⟨last, hlast, y⟩ := ih (r.step x) fun v hv => by
      rcases List.mem_append.mp hv with hv | hv
      · obtain ⟨-, hmem, d, hd, -⟩ := x.fresh v hv
        exact hchildren _ hmem (isNone_tag_of_draft hd)
      · exact h v (List.mem_cons_of_mem _ hv)
    refine ⟨last, ?_, y.step r x⟩
    rw [fill, hrun]
    exact hlast

/-! ### Faults -/

/-- Children are put down without a fault only if their drafts can be made, and then those with
a tag wait. -/
theorem of_putChildren (h : putChildren drafts host children waiting = .ok (filled, left)) :
    waiting ⊆ left ∧ ∀ c ∈ children, c.tag.isNone = false →
      (∃ d, c.draft = .ok d) ∧ ∃ id, ⟨c, id⟩ ∈ left := by
  induction children generalizing drafts waiting with
  | nil =>
    cases h
    exact ⟨List.Subset.refl _, fun c hc => absurd hc List.not_mem_nil⟩
  | cons c rest ih =>
    rw [putChildren] at h
    rw [List.forall_mem_cons]
    split at h
    · rename_i hnone
      obtain ⟨hsub, hrest⟩ := ih h
      exact ⟨hsub, fun hsome => absurd hnone (by rw [hsome]; decide), hrest⟩
    · split at h
      · cases h
      · rename_i d hd
        obtain ⟨hsub, hrest⟩ := ih h
        exact ⟨List.Subset.trans (List.subset_cons_self _ _) hsub,
          fun _ => ⟨⟨d, hd⟩, _, hsub List.mem_cons_self⟩, hrest⟩

theorem wellNamed_of_fill (h : fill drafts waiting = .ok filled) :
    ∀ w ∈ waiting, ∀ c ∈ w.element.children, c.tag.isNone = false → c.WellNamed := by
  induction drafts, waiting using fill.induct with
  | case1 drafts => exact fun w hw => absurd hw List.not_mem_nil
  | case2 drafts w rest f hf =>
    rw [fill, hf] at h
    cases h
  | case3 drafts w rest next left hf ih =>
    rw [fill, hf] at h
    obtain ⟨hsub, hchildren⟩ := of_putChildren hf
    have hleft := ih h
    rw [List.forall_mem_cons]
    refine ⟨fun c hc hsome => ?_, fun v hv => hleft v (hsub hv)⟩
    obtain ⟨hd, id, hmem⟩ := hchildren c hc hsome
    exact wellNamed_iff.mpr ⟨hd, hleft _ hmem⟩

end Draft

theorem toRaw_of_wellNamed (h : e.WellNamed) : e.toRaw = .ok e.plain := by
  obtain ⟨⟨d, hd⟩, -⟩ := wellNamed_iff.mp h
  have hready : Draft.Ready #[d] [⟨e, 0⟩] := by
    refine ⟨List.nodup_singleton _, fun w hw => ?_⟩
    rw [List.mem_singleton.mp hw]
    exact ⟨d, hd, rfl⟩
  obtain ⟨filled, hrun, x⟩ := Draft.fill_spec hready fun w hw => by
    rw [List.mem_singleton.mp hw]
    exact h
  have hread := x.reads _ List.mem_cons_self filled.size (Nat.le_add_left _ _)
  rw [Element.toRaw, hd]
  simp only [hrun, Except.map, hread]

theorem wellNamed_of_toRaw {raw : Value} (h : e.toRaw = .ok raw) : e.WellNamed := by
  rw [Element.toRaw] at h
  split at h
  · cases h
  · rename_i d hd
    cases hrun : Draft.fill #[d] [⟨e, 0⟩] with
    | error f =>
      rw [hrun] at h
      cases h
    | ok filled =>
      exact wellNamed_iff.mpr ⟨⟨d, hd⟩, Draft.wellNamed_of_fill hrun _ List.mem_cons_self⟩

/-- The raw tree is made just where all names that are read can be qualified.  It is the one
given by recursion, and its text nodes hold the texts of the document in their order. -/
theorem content_in_order (e : Element) :
    (∀ raw, e.toRaw = .ok raw ↔ e.WellNamed ∧ raw = e.plain) ∧
      e.plain.textValues = e.texts.map .text := by
  refine ⟨fun raw => ⟨fun h => ?_, ?_⟩, Element.textValues_plain e⟩
  · have hnamed := wellNamed_of_toRaw h
    rw [toRaw_of_wellNamed hnamed] at h
    cases h
    exact ⟨hnamed, rfl⟩
  · rintro ⟨hnamed, rfl⟩
    exact toRaw_of_wellNamed hnamed

/-- Text before, between and after children stays where it is, also after a comment. -/
theorem content_in_order_of_mixed :
    (Element.mk (some "\x7bhttp://www.w3.org/2000/svg\x7dtext") [("x", "1")] (some "one ") none
      [.mk (some "b") [] (some "two") (some " three ") [.mk (some "\x7burn:x\x7di") [] none none []],
        .mk none [] (some "note") (some "four") [],
        .mk (some "b") [] (some " ") (some "\n") []]).toRaw =
    .ok (.dict [(.text "type", .text "element"), (.text "name", .text "text"),
      (.text "attributes", .dict [(.text "x", .text "1")]), (.text "children", .list [
        .dict [(.text "type", .text "text"), (.text "value", .text "one ")],
        .dict [(.text "type", .text "element"), (.text "name", .text "b"),
          (.text "attributes", .dict []), (.text "children", .list [
            .dict [(.text "type", .text "text"), (.text "value", .text "two")],
            .dict [(.text "type", .text "element"), (.text "name", .text "\x7burn:x\x7di"),
              (.text "attributes", .dict []), (.text "children", .list [])]])],
        .dict [(.text "type", .text "text"), (.text "value", .text " three ")],
        .dict [(.text "type", .text "text"), (.text "value", .text "four")],
        .dict [(.text "type", .text "element"), (.text "name", .text "b"),
          (.text "attributes", .dict []), (.text "children", .list [])]])]) := by
  have hleaf {tag : String} (htag : ClosedName tag) (text tail : Option String) :
      (Element.mk (some tag) [] text tail []).WellNamed :=
    .mk htag (by decide) fun c hc => absurd hc List.not_mem_nil
  refine ((content_in_order _).1 _).mpr ⟨.mk (by decide) (by decide) ?_, rfl⟩
  rw [List.forall_mem_cons, List.forall_mem_cons, List.forall_mem_singleton]
  refine ⟨fun _ => .mk (by decide) (by decide) ?_, fun hnone => (by cases hnone),
    fun _ => hleaf (by decide) _ _⟩
  exact List.forall_mem_singleton.mpr fun _ => hleaf (by decide) _ _

end Markup
end SvgTree
