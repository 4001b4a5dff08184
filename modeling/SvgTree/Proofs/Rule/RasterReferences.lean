/-
What counts as a reference to a raster image.

A reference reads as raster data, or it ends as a raster file does.  The ending is looked for
in data as well: data of another kind counts as an image where its text happens to end in one,
and an image with such data is taken out.  Every other reference is told by what it is.
-/
import Mathlib.Data.List.Forall2
import SvgTree.Proofs.Rule.Removing

namespace SvgTree

open Selector (parse)

namespace Raster

variable {c d : Char} {pattern first second cs : List Char}

/-! ### Reading without regard to case -/

/-- The character reads as the small letter: made small it is that letter, or it is one of the
two that differ from `i` by their dot alone. -/
def Alike (c d : Char) : Prop := c.toLower = d ∨ (d = 'i' ∧ (c = 'İ' ∨ c = 'ı'))

def StartsLike (pattern cs : List Char) : Prop :=
  ∃ start rest, cs = start ++ rest ∧ List.Forall₂ Alike start pattern

def EndsLike (pattern cs : List Char) : Prop :=
  ∃ front finish, cs = front ++ finish ∧ List.Forall₂ Alike finish pattern

theorem fold_eq_iff (hd : fold d = d) : fold c = d ↔ Alike c d := by
  have hdotted : d ≠ 'İ' ∧ d ≠ 'ı' := by
    constructor <;> rintro rfl <;> revert hd <;> decide
  by_cases hc : c = 'İ' ∨ c = 'ı'
  · have hfold : fold c = 'i' := by rcases hc with rfl | rfl <;> rfl
    have hne : c.toLower ≠ d := by
      rcases hc with rfl | rfl
      · exact hdotted.1.symm
      · exact hdotted.2.symm
    simp only [Alike, hfold, hne, hc, false_or, and_true, eq_comm]
  · have hfold : fold c = c.toLower := by
      rw [fold, if_neg (by simpa using hc)]
    simp only [Alike, hfold, hc, and_false, or_false]

theorem map_fold_eq_iff (hpattern : pattern.map fold = pattern) :
    cs.map fold = pattern ↔ List.Forall₂ Alike cs pattern := by
  induction cs generalizing pattern with
  | nil => cases pattern <;> simp
  | cons c cs ih =>
    cases pattern with
    | nil => simp
    | cons d pattern =>
      obtain ⟨hd, hrest⟩ := List.cons.inj hpattern
      rw [List.map_cons, List.cons.injEq, List.forall₂_cons, fold_eq_iff hd, ih hrest]

theorem startsLike_iff (hpattern : pattern.map fold = pattern) :
    StartsLike pattern cs ↔ pattern <+: cs.map fold := by
  constructor
  · rintro ⟨start, rest, rfl, hreads⟩
    rw [List.map_append, (map_fold_eq_iff hpattern).mpr hreads]
    exact List.prefix_append _ _
  · rintro ⟨rest, hrest⟩
    obtain ⟨start, rest', hcs, hstart, -⟩ := List.map_eq_append_iff.mp hrest.symm
    exact ⟨start, rest', hcs, (map_fold_eq_iff hpattern).mp hstart⟩

theorem endsLike_iff (hpattern : pattern.map fold = pattern) :
    EndsLike pattern cs ↔ pattern <:+ cs.map fold := by
  constructor
  · rintro ⟨front, finish, rfl, hreads⟩
    rw [List.map_append, (map_fold_eq_iff hpattern).mpr hreads]
    exact List.suffix_append _ _
  · rintro ⟨front, hfront⟩
    obtain ⟨front', finish, hcs, -, hfinish⟩ := List.map_eq_append_iff.mp hfront.symm
    exact ⟨front', finish, hcs, (map_fold_eq_iff hpattern).mp hfinish⟩

theorem append_prefix_iff :
    first ++ second <+: cs ↔ first <+: cs ∧ second <+: cs.drop first.length := by
  constructor
  · rintro ⟨rest, rfl⟩
    simp
  · rintro ⟨⟨rest, rfl⟩, hsecond⟩
    simpa using hsecond

/-! ### Kinds of reference -/

def formats : List String := ["png", "jpg", "jpeg", "gif"]

def marks : List String := [";", ","]

def Data (cs : List Char) : Prop := StartsLike "data:".toList cs

def RasterData (cs : List Char) : Prop :=
  ∃ format ∈ formats, ∃ mark ∈ marks, StartsLike ("data:image/" ++ format ++ mark).toList cs

def EndsAsFile (cs : List Char) : Prop :=
  ∃ format ∈ formats, EndsLike ("." ++ format).toList cs

def OtherData (cs : List Char) : Prop := Data cs ∧ ¬ RasterData cs

theorem map_fold_ending : ∀ format ∈ formats,
    ("." ++ format).toList.map fold = ("." ++ format).toList := by decide

theorem map_fold_media : ∀ format ∈ formats, ∀ mark ∈ marks,
    ("data:image/" ++ format ++ mark).toList.map fold =
      ("data:image/" ++ format ++ mark).toList := by decide

theorem data_iff : Data cs ↔ "data:".toList <+: cs.map fold := startsLike_iff (by decide)

theorem endings_eq : endings = formats.map String.toList := rfl

theorem head_is_mark_iff :
    (cs.head?.map fun c => c == ';' || c == ',').getD false = true ↔
      ∃ mark ∈ marks, mark.toList <+: cs := by
  cases cs with
  | nil => simp [marks]
  | cons c cs =>
    have hfirst (d : Char) : [d] <+: c :: cs ↔ c = d := by
      rw [List.cons_prefix_cons, and_iff_left List.nil_prefix, eq_comm]
    simp [marks, hfirst]

theorem isData_iff : isData (cs.map fold) = true ↔ RasterData cs := by
  have hsplit (format mark : String) :
      ("data:image/" ++ format ++ mark).toList <+: cs.map fold ↔
        "data:image/".toList <+: cs.map fold ∧
          format.toList <+: (cs.map fold).drop "data:image/".toList.length ∧
          mark.toList <+: ((cs.map fold).drop "data:image/".toList.length).drop
            format.toList.length := by
    rw [String.toList_append, String.toList_append, List.append_assoc, append_prefix_iff,
      append_prefix_iff]
  simp only [isData, endings_eq, Bool.and_eq_true, List.any_eq_true, List.mem_map,
    List.isPrefixOf_iff_prefix, head_is_mark_iff]
  constructor
  · rintro ⟨hdata, _, ⟨format, hformat, rfl⟩, hname, mark, hmark, hends⟩
    refine ⟨format, hformat, mark, hmark, ?_⟩
    exact (startsLike_iff (map_fold_media format hformat mark hmark)).mpr
      ((hsplit format mark).mpr ⟨hdata, hname, hends⟩)
  · rintro ⟨format, hformat, mark, hmark, hstarts⟩
    obtain ⟨hdata, hname, hends⟩ := (hsplit format mark).mp
      ((startsLike_iff (map_fold_media format hformat mark hmark)).mp hstarts)
    exact ⟨hdata, format.toList, ⟨format, hformat, rfl⟩, hname, mark, hmark, hends⟩

theorem hasEnding_iff : hasEnding (cs.map fold) = true ↔ EndsAsFile cs := by
  rw [hasEnding, endings_eq, List.any_map, List.any_eq_true, EndsAsFile]
  refine exists_congr fun format => and_congr_right fun hformat => ?_
  rw [endsLike_iff (map_fold_ending format hformat), String.toList_append]
  exact List.isSuffixOf_iff_suffix

instance (cs : List Char) : Decidable (Data cs) := decidable_of_iff _ data_iff.symm

instance (cs : List Char) : Decidable (RasterData cs) := decidable_of_iff _ isData_iff

instance (cs : List Char) : Decidable (EndsAsFile cs) := decidable_of_iff _ hasEnding_iff

instance (cs : List Char) : Decidable (OtherData cs) := inferInstanceAs (Decidable (_ ∧ _))

theorem RasterData.data (h : RasterData cs) : Data cs := by
  obtain ⟨format, hformat, mark, hmark, hstarts⟩ := h
  have hmedia := (startsLike_iff (map_fold_media format hformat mark hmark)).mp hstarts
  rw [String.append_assoc, String.toList_append] at hmedia
  have hdata : "data:".toList <+: "data:image/".toList := by decide
  exact data_iff.mpr ((hdata.trans (List.prefix_append _ _)).trans hmedia)

def bare (href : String) : List Char := Text.stripChars href.toList

theorem isReference_iff (href : String) :
    isReference href = true ↔ RasterData (bare href) ∨ EndsAsFile (bare href) := by
  show (isData ((bare href).map fold) || hasEnding ((bare href).map fold)) = true ↔ _
  rw [Bool.or_eq_true, isData_iff, hasEnding_iff]

/-- By its kind the reference points to a raster image: it is data of a raster format, or it is
no data and ends as a raster file does. -/
def RasterByKind (cs : List Char) : Prop := (Data cs ∧ RasterData cs) ∨ (¬ Data cs ∧ EndsAsFile cs)

instance (cs : List Char) : Decidable (RasterByKind cs) := inferInstanceAs (Decidable (_ ∨ _))

/-- A reference is told by its kind, but for other data that ends as a file does. -/
theorem isReference_iff_byKind (href : String) :
    (isReference href = true ↔ RasterByKind (bare href)) ↔
      ¬ (OtherData (bare href) ∧ EndsAsFile (bare href)) := by
  rw [isReference_iff]
  constructor
  · rintro hkind ⟨hother, hends⟩
    rcases hkind.mp (.inr hends) with ⟨-, hraster⟩ | ⟨hplain, -⟩
    · exact hother.2 hraster
    · exact hplain hother.1
  · intro hnone
    constructor
    · rintro (hraster | hends)
      · exact .inl ⟨hraster.data, hraster⟩
      · by_cases hdata : Data (bare href)
        · -- Data with such an ending is no other data, so it is of a raster format.
          by_contra hkind
          exact hnone ⟨⟨hdata, fun hraster => hkind (.inl ⟨hdata, hraster⟩)⟩, hends⟩
        · exact .inr ⟨hdata, hends⟩
    · rintro (⟨-, hraster⟩ | ⟨-, hends⟩)
      · exact .inl hraster
      · exact .inr hends

end Raster

namespace Forest

open Raster

variable {f : Forest} {root i : NodeId} {top : List NodeId} {step : Step} {href : String}

theorem isRaster_iff (hhref : reference? (f.node i).attributes = some href) :
    f.isRaster i = true ↔
      isReference href = true ∧ (parse "image").accepts (f.node i).toFields = true := by
  have himage : isRasterImage (f.node i).toFields = isReference href := by
    show ((reference? (f.node i).attributes).map isReference).getD false = _
    rw [hhref]
    rfl
  rw [isRaster, himage, Bool.and_eq_true, and_comm]

/-- What is cut out is every image that something holds and that stands below no other image, the
root apart. -/
theorem RootCut.mem_cuts_iff (r : RootCut f root top) (wf : f.WellFormed) (hroot : root < f.size)
    (hi : i ∈ f.walk root) :
    i ∈ top ++ f.outermost (f.rasters (f.below root)) ↔
      f.isRaster i = true ∧ (∃ p, i ∈ f.children p) ∧
        ∀ a ∈ f.below root, f.isRaster a = true → f.Above a i → a = i := by
  have hlt : ∀ a ∈ f.rasters (f.below root), a < f.size := fun a ha =>
    wf.lt_of_mem_walk hroot ((wf.mem_below hroot).mp (mem_rasters.mp ha).1).1
  rw [List.mem_append, wf.mem_outermost hlt]
  by_cases hir : i = root
  · subst hir
    have hinner : i ∉ f.below i := fun h => ((wf.mem_below hroot).mp h).2 rfl
    -- Nothing below the root stands above it.
    have hfree : ∀ a ∈ f.below i, f.isRaster a = true → f.Above a i → a = i := by
      intro a ha _ habove
      exact habove.antisymm (wf.above_of_mem_walk hroot ((wf.mem_below hroot).mp ha).1)
    rw [r.mem_iff, mem_rasters]
    simp only [hinner, false_and, or_false]
    exact ⟨fun h => ⟨h.1, h.2, hfree⟩, fun h => ⟨h.1, h.2.1⟩⟩
  · have htop : i ∉ top := fun h => hir (r.eq_root i h)
    have hbelow : i ∈ f.below root := (wf.mem_below hroot).mpr ⟨hi, hir⟩
    obtain ⟨p, hp, -⟩ := ((wf.mem_walk_iff_held hroot).mp hi).resolve_left hir
    rw [or_iff_right htop, mem_rasters, and_iff_right hbelow]
    refine and_congr_right fun _ => ?_
    rw [and_iff_right ⟨p, hp⟩]
    simp only [mem_rasters, and_imp]

/-- A step that removes raster images changes the parent of just these images, and only where the
tree can be searched. -/
theorem WellFormed.parent_changes_iff (wf : f.WellFormed) (tree : f.AllLegacy root)
    (hplugin : step.plugin = .removeRasterImages) (hi : i ∈ f.walk root) :
    (f.runStep root step).1.parent? i ≠ f.parent? i ↔
      f.Searchable root (parse "image") ∧ f.isRaster i = true ∧ (∃ p, i ∈ f.children p) ∧
        ∀ a ∈ f.below root, f.isRaster a = true → f.Above a i → a = i := by
  have hperform : f.perform root step = f.removeRasterImages root step := by
    rw [perform, hplugin]
  by_cases hs : f.Searchable root (parse "image")
  · obtain ⟨g, result, top, hrun, -, -, htop, -, ho, -⟩ :=
      removeRasterImages_spec step wf tree hs
    rw [runStep_of_ok (hperform.trans hrun), ho.parent_eq, and_iff_right hs,
      ← htop.mem_cuts_iff wf tree.root_lt hi]
    constructor
    · intro hchanged
      by_contra hnot
      exact hchanged (if_neg hnot)
    · intro hmem
      obtain ⟨p, hp⟩ := ho.held i hmem
      rw [if_pos hmem, wf.held hp]
      exact (Option.some_ne_none p).symm
  · obtain ⟨j, -, -, hfails⟩ := removeRasterImages_unsearchable step wf tree hs
    rw [runStep_of_unhashable (hperform.trans hfails)]
    exact iff_of_false (fun h => h rfl) fun h => hs h.1

/-- A reference counts as one to a raster image just when, without the white space around it and
without regard to case, it is data of a raster format or it ends as a raster file does.  That is
what its kind says of every reference but data of another kind with such an ending.  A step that
removes raster images takes an image with data of another kind out of a tree of legacy nodes just
where the data has such an ending, the image stands below no other raster image of the tree, the
root apart, and something holds it. -/
theorem references_told_by_kind (href : String) :
    (isReference href = true ↔ RasterData (bare href) ∨ EndsAsFile (bare href)) ∧
    ((isReference href = true ↔ RasterByKind (bare href)) ↔
      ¬ (OtherData (bare href) ∧ EndsAsFile (bare href))) ∧
    (OtherData (bare href) → ∀ (f : Forest) (root i : NodeId) (step : Step), f.Reachable →
      f.AllLegacy root → step.plugin = .removeRasterImages → i ∈ f.walk root →
      reference? (f.node i).attributes = some href →
      ((f.runStep root step).1.parent? i ≠ f.parent? i ↔
        f.Searchable root (parse "image") ∧ EndsAsFile (bare href) ∧
          (parse "image").accepts (f.node i).toFields = true ∧ (∃ p, i ∈ f.children p) ∧
          ∀ a ∈ f.below root, f.isRaster a = true → f.Above a i → a = i)) := by
  refine ⟨isReference_iff href, isReference_iff_byKind href, ?_⟩
  intro hother f root i step hf tree hplugin hi hhref
  have hends : isReference href = true ↔ EndsAsFile (bare href) := by
    rw [isReference_iff, or_iff_right hother.2]
  rw [hf.wellFormed.parent_changes_iff tree hplugin hi, isRaster_iff hhref, hends, and_assoc]

/-- A root over two images with data of another kind, under the numbers 1 and 2.  The data of the
first ends as a raster file does. -/
def drawingCalls : List Call :=
  [.wrap (.dict [(.text "type", .text "root"), (.text "children", .list [
    .dict [(.text "name", .text "image"),
      (.text "attributes", .dict [(.text "href", .text "data:image/svg+xml,<svg/>#a.png")])],
    .dict [(.text "name", .text "image"),
      (.text "attributes", .dict [(.text "href", .text "data:image/svg+xml,<svg/>")])]])])]

/-- The image whose data has no such ending stays, and its reference is told by its kind. -/
theorem references_told_by_kind_of_drawing :
    (Forest.empty.afterAll drawingCalls).Reachable ∧
      (Forest.empty.afterAll drawingCalls).AllLegacy 0 ∧
      takeOutRasters.plugin = .removeRasterImages ∧
      2 ∈ (Forest.empty.afterAll drawingCalls).walk 0 ∧
      reference? ((Forest.empty.afterAll drawingCalls).node 2).attributes =
        some "data:image/svg+xml,<svg/>" ∧
      OtherData (bare "data:image/svg+xml,<svg/>") ∧
      (isReference "data:image/svg+xml,<svg/>" = true ↔
        RasterByKind (bare "data:image/svg+xml,<svg/>")) ∧
      ((Forest.empty.afterAll drawingCalls).runStep 0 takeOutRasters).1.parent? 2 = some 0 := by
  have reach : (Forest.empty.afterAll drawingCalls).Reachable :=
    ⟨drawingCalls, by decide +kernel, rfl⟩
  have tree : (Forest.empty.afterAll drawingCalls).AllLegacy 0 := by decide +kernel
  have inside : 2 ∈ (Forest.empty.afterAll drawingCalls).walk 0 := by decide +kernel
  have refers : reference? ((Forest.empty.afterAll drawingCalls).node 2).attributes =
      some "data:image/svg+xml,<svg/>" := by decide +kernel
  have other : OtherData (bare "data:image/svg+xml,<svg/>") := by decide +kernel
  have plain : ¬ EndsAsFile (bare "data:image/svg+xml,<svg/>") := by decide +kernel
  have parent : (Forest.empty.afterAll drawingCalls).parent? 2 = some 0 := by decide +kernel
  obtain ⟨-, told, cuts⟩ := references_told_by_kind "data:image/svg+xml,<svg/>"
  refine ⟨reach, tree, rfl, inside, refers, other, told.mpr fun h => plain h.2, ?_⟩
  rw [← parent]
  by_contra hchanged
  exact plain ((cuts other _ 0 2 takeOutRasters reach tree rfl inside refers).mp hchanged).2.1

/-- Data of another kind that ends as a raster file does counts as a raster image, and the image
is taken out. -/
theorem drawing_taken_for_raster :
    OtherData (bare "data:image/svg+xml,<svg/>#a.png") ∧
      ¬ RasterByKind (bare "data:image/svg+xml,<svg/>#a.png") ∧
      isReference "data:image/svg+xml,<svg/>#a.png" = true ∧
      (Forest.empty.afterAll drawingCalls).Reachable ∧
      (Forest.empty.afterAll drawingCalls).AllLegacy 0 ∧
      reference? ((Forest.empty.afterAll drawingCalls).node 1).attributes =
        some "data:image/svg+xml,<svg/>#a.png" ∧
      (Forest.empty.afterAll drawingCalls).children 0 = [1, 2] ∧
      ((Forest.empty.afterAll drawingCalls).runStep 0 takeOutRasters).1.children 0 = [2] := by
  refine ⟨?_, ?_, ?_, ⟨drawingCalls, ?_, rfl⟩, ?_⟩
  all_goals decide +kernel

end Forest
end SvgTree
