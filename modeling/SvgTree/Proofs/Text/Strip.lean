/-
Text without its outer white space.

Stripping undoes any padding with white space, and what it takes away is such a padding.
Text that neither starts nor ends with white space is left as it is.
-/
import Mathlib.Data.List.TakeWhile
import SvgTree.Text.Blank

namespace SvgTree
namespace Text

variable {cs w : List Char}

def Blank (cs : List Char) : Prop := ∀ c ∈ cs, isSpace c = true

instance (cs : List Char) : Decidable (Blank cs) :=
  decidable_of_iff (cs.all isSpace = true) List.all_eq_true

theorem isBlank_iff {s : String} : isBlank s = true ↔ Blank s.toList := List.all_eq_true

theorem dropWhile_blank (hw : Blank w) : w.dropWhile isSpace = [] :=
  List.dropWhile_eq_nil_iff.mpr hw

theorem blank_reverse (hw : Blank w) : Blank w.reverse :=
  fun c hc => hw c (List.mem_reverse.mp hc)

theorem stripChars_append_left (hw : Blank w) (cs : List Char) :
    stripChars (w ++ cs) = stripChars cs := by
  rw [stripChars, List.dropWhile_append_of_pos hw, stripChars]

theorem stripChars_append_right (hw : Blank w) (cs : List Char) :
    stripChars (cs ++ w) = stripChars cs := by
  have hrev : (w.reverse ++ (cs.dropWhile isSpace).reverse).dropWhile isSpace =
      (cs.dropWhile isSpace).reverse.dropWhile isSpace :=
    List.dropWhile_append_of_pos (blank_reverse hw)
  unfold stripChars
  rw [List.dropWhile_append]
  by_cases hall : (cs.dropWhile isSpace).isEmpty = true
  · rw [if_pos hall, dropWhile_blank hw, List.isEmpty_iff.mp hall]
  · rw [if_neg hall, List.reverse_append, hrev]

theorem exists_padding (cs : List Char) :
    ∃ w w', Blank w ∧ Blank w' ∧ cs = w ++ (stripChars cs ++ w') := by
  have hend := List.takeWhile_append_dropWhile (p := isSpace)
    (l := (cs.dropWhile isSpace).reverse)
  refine ⟨cs.takeWhile isSpace, ((cs.dropWhile isSpace).reverse.takeWhile isSpace).reverse,
    fun c hc => List.mem_takeWhile_imp hc,
    blank_reverse fun c hc => List.mem_takeWhile_imp hc, ?_⟩
  rw [stripChars, ← List.reverse_append, hend, List.reverse_reverse,
    List.takeWhile_append_dropWhile]

theorem dropWhile_of_head (h : ∀ c ∈ cs.head?, isSpace c = false) :
    cs.dropWhile isSpace = cs := by
  cases cs with
  | nil => rfl
  | cons c rest => simp [h c rfl]

theorem stripChars_of_ends (hfirst : ∀ c ∈ cs.head?, isSpace c = false)
    (hlast : ∀ c ∈ cs.getLast?, isSpace c = false) : stripChars cs = cs := by
  rw [stripChars, dropWhile_of_head hfirst, dropWhile_of_head, List.reverse_reverse]
  rwa [List.head?_reverse]

theorem strip_eq_empty_iff {s : String} : strip s = "" ↔ isBlank s = true := by
  rw [strip, isBlank_iff, String.ofList_eq_empty_iff]
  constructor
  · intro h
    obtain ⟨w, w', hw, hw', htext⟩ := exists_padding s.toList
    rw [h, List.nil_append] at htext
    intro c hc
    rw [htext, List.mem_append] at hc
    exact hc.elim (hw c) (hw' c)
  · intro h
    rw [stripChars, dropWhile_blank h]
    rfl

end Text
end SvgTree
