/-
The pieces of a text between its commas.

Text is made in just one way of pieces without commas and a comma between each and the next,
and cutting finds the pieces.  Text that differs in the case of ASCII letters alone is cut in
the same places, and white space around a text goes to its first piece and its last, so that
the stripped pieces do not show it.
-/
import SvgTree.Proofs.Text.Spelling

namespace SvgTree
namespace Text

variable {s t : String} {c sep : Char} {cs ds w piece : List Char} {pieces : List String}

/-! ### Cutting -/

theorem splitChars_eq (sep : Char) (cs : List Char) : splitChars sep cs = cs.splitOn sep := by
  induction cs with
  | nil => rfl
  | cons c cs ih =>
    rw [List.splitOn_cons_eq_if_modifyHead, splitChars, ih]
    cases hrest : cs.splitOn sep with
    | nil => exact absurd hrest (List.splitOn_ne_nil _ _)
    | cons piece pieces => rfl

theorem splitChars_cons (sep c : Char) (cs : List Char) :
    ∃ first rest, splitChars sep cs = first :: rest ∧
      splitChars sep (c :: cs) =
        if c = sep then [] :: first :: rest else (c :: first) :: rest := by
  cases hcut : splitChars sep cs with
  | nil => exact absurd (splitChars_eq sep cs ▸ hcut) (List.splitOn_ne_nil _ _)
  | cons first rest =>
    refine ⟨first, rest, rfl, ?_⟩
    rw [splitChars, hcut]
    by_cases hc : c = sep <;> simp [hc]

theorem notMem_of_mem_splitChars (h : piece ∈ splitChars sep cs) : sep ∉ piece := by
  induction cs generalizing piece with
  | nil =>
    rw [List.mem_singleton.mp h]
    exact List.not_mem_nil
  | cons c cs ih =>
    obtain ⟨first, rest, hcut, hcons⟩ := splitChars_cons sep c cs
    rw [hcut] at ih
    rw [hcons] at h
    by_cases hc : c = sep
    · rw [if_pos hc] at h
      cases h with
      | head => exact List.not_mem_nil
      | tail _ hmem => exact ih hmem
    · rw [if_neg hc] at h
      cases h with
      | head =>
        intro hmem
        cases hmem with
        | head => exact hc rfl
        | tail _ hmem => exact ih List.mem_cons_self hmem
      | tail _ hmem => exact ih (List.mem_cons_of_mem _ hmem)

theorem SameLetters.splitChars (h : SameLetters cs ds) :
    List.Forall₂ SameLetters (splitChars ',' cs) (splitChars ',' ds) := by
  induction h with
  | nil => exact .cons .nil .nil
  | @cons c d cs ds hcd _ ih =>
    obtain ⟨first, rest, hcut, hcons⟩ := splitChars_cons ',' c cs
    obtain ⟨first', rest', hcut', hcons'⟩ := splitChars_cons ',' d ds
    rw [hcut, hcut'] at ih
    rw [hcons, hcons']
    have hletter : ∀ e : Char, e.isAlpha = true → (e == ',') = false := by
      intro e he
      rw [beq_eq_false_iff_ne]
      rintro rfl
      cases he
    have hcomma : c = ',' ↔ d = ',' := by
      simpa only [beq_iff_eq] using Bool.eq_iff_iff.mp (hcd.congr hletter)
    by_cases hc : c = ','
    · rw [if_pos hc, if_pos (hcomma.mp hc)]
      exact .cons .nil ih
    · rw [if_neg hc, if_neg (hcomma.not.mp hc)]
      cases ih with
      | cons hfirst hrest => exact .cons (.cons hcd hfirst) hrest

/-! ### White space around the text -/

theorem ne_comma_of_blank (hw : Blank (c :: w)) : c ≠ ',' := by
  rintro rfl
  cases hw ',' List.mem_cons_self

theorem blank_tail (hw : Blank (c :: w)) : Blank w := fun d hd => hw d (List.mem_cons_of_mem _ hd)

theorem splitChars_blank_append (hw : Blank w) (cs : List Char) :
    ∃ first rest, splitChars ',' cs = first :: rest ∧
      splitChars ',' (w ++ cs) = (w ++ first) :: rest := by
  induction w with
  | nil =>
    obtain ⟨first, rest, hcut, -⟩ := splitChars_cons ',' ',' cs
    exact ⟨first, rest, hcut, hcut⟩
  | cons c w ih =>
    obtain ⟨first, rest, hcut, happend⟩ := ih (blank_tail hw)
    obtain ⟨first', rest', hcut', hcons⟩ := splitChars_cons ',' c (w ++ cs)
    rw [happend] at hcut'
    cases hcut'
    exact ⟨first, rest, hcut, hcons.trans (if_neg (ne_comma_of_blank hw))⟩

theorem splitChars_append_blank (hw : Blank w) (cs : List Char) :
    List.Forall₂ (fun p q => ∃ w', Blank w' ∧ q = p ++ w') (splitChars ',' cs)
      (splitChars ',' (cs ++ w)) := by
  induction cs with
  | nil =>
    obtain ⟨first, rest, hcut, happend⟩ := splitChars_blank_append hw []
    cases hcut
    rw [List.append_nil] at happend
    rw [List.nil_append, happend]
    exact .cons ⟨w, hw, rfl⟩ .nil
  | cons c cs ih =>
    obtain ⟨first, rest, hcut, hcons⟩ := splitChars_cons ',' c cs
    obtain ⟨first', rest', hcut', hcons'⟩ := splitChars_cons ',' c (cs ++ w)
    rw [hcut, hcut'] at ih
    rw [List.cons_append, hcons, hcons']
    by_cases hc : c = ','
    · rw [if_pos hc, if_pos hc]
      exact .cons ⟨[], fun d hd => absurd hd List.not_mem_nil, rfl⟩ ih
    · rw [if_neg hc, if_neg hc]
      cases ih with
      | cons hfirst hrest =>
        obtain ⟨w', hw', rfl⟩ := hfirst
        exact .cons ⟨w', hw', rfl⟩ hrest

theorem map_stripChars_padded {w' : List Char} (hw : Blank w) (hw' : Blank w') (cs : List Char) :
    (splitChars ',' (w ++ (cs ++ w'))).map stripChars = (splitChars ',' cs).map stripChars := by
  obtain ⟨first, rest, hcut, happend⟩ := splitChars_blank_append hw (cs ++ w')
  have hfront : (splitChars ',' (w ++ (cs ++ w'))).map stripChars =
      (splitChars ',' (cs ++ w')).map stripChars := by
    rw [happend, hcut, List.map_cons, List.map_cons, stripChars_append_left hw]
  rw [hfront, ← List.forall₂_eq_eq_eq, List.forall₂_map_left_iff, List.forall₂_map_right_iff]
  refine List.Forall₂.flip ((splitChars_append_blank hw' cs).imp ?_)
  rintro p q ⟨w'', hw'', rfl⟩
  exact stripChars_append_right hw'' p

/-! ### Pieces -/

/-- The text is these pieces, none of them with a comma, with a comma between each and the
next. -/
structure Parted (s : String) (pieces : List String) : Prop where
  ne_nil : pieces ≠ []
  no_comma : ∀ p ∈ pieces, ',' ∉ p.toList
  joined : ",".intercalate pieces = s

theorem map_toList_splitOn (s : String) :
    (splitOn ',' s).map String.toList = splitChars ',' s.toList := by
  rw [splitOn, List.map_map]
  exact List.map_id'' (fun _ => String.toList_ofList) _

theorem parted_splitOn (s : String) : Parted s (splitOn ',' s) where
  ne_nil := by
    obtain ⟨first, rest, hcut, -⟩ := splitChars_cons ',' ',' s.toList
    rw [splitOn, hcut]
    exact List.cons_ne_nil _ _
  no_comma := by
    intro p hp
    have hmem := List.mem_map_of_mem (f := String.toList) hp
    rw [map_toList_splitOn] at hmem
    exact notMem_of_mem_splitChars hmem
  joined := by
    rw [← String.toList_inj, String.toList_intercalate, map_toList_splitOn, splitChars_eq]
    exact List.intercalate_splitOn ','

theorem Parted.eq (h : Parted s pieces) : pieces = splitOn ',' s := by
  have hcomma : ∀ l ∈ pieces.map String.toList, ',' ∉ l := by
    intro l hl
    obtain ⟨p, hp, rfl⟩ := List.mem_map.mp hl
    exact h.no_comma p hp
  have hcut := List.splitOn_intercalate ',' hcomma (by simpa using h.ne_nil)
  rw [splitOn, ← h.joined, String.toList_intercalate, splitChars_eq]
  refine Eq.symm ((congrArg _ hcut).trans ?_)
  rw [List.map_map]
  exact List.map_id'' (fun _ => String.ofList_toList) _

end Text
end SvgTree
