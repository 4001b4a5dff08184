/-
What a selector is read as.

A selector is cut at its parting commas, and every piece is stripped and read by itself.  So
reading loses nothing: the alternatives written down are the stripped pieces again.  A list of
selectors of the grammar that is written with commas between them and any white space around
them comes back as it was, whatever stands in its values, because the scan goes over each of
them without a cut and is at the end where it was at the start.
-/
import SvgTree.Proofs.Selector.Cuts
import SvgTree.Proofs.Selector.Grammar

namespace SvgTree
namespace Selector

open Text (Blank isSpace stripChars)

def ofAlternatives : List Simple → Selector
  | [s] => .one s
  | l => .anyOf l

theorem alternatives_ofAlternatives (l : List Simple) : (ofAlternatives l).alternatives = l := by
  unfold ofAlternatives
  split <;> rfl

theorem ofPieces_eq (pieces : List (List Char)) :
    ofPieces pieces = ofAlternatives (pieces.map Simple.read) := by
  cases pieces with
  | nil => rfl
  | cons piece rest => cases rest <;> rfl

theorem parse_eq (source : String) :
    parse source = ofAlternatives ((alternativesOf source.toList).map Simple.read) := by
  rw [parse, alternativesOf_stripChars, ofPieces_eq]

theorem alternatives_parse (source : String) :
    (parse source).alternatives = (alternativesOf source.toList).map Simple.read := by
  rw [parse_eq, alternatives_ofAlternatives]

/-! ### Any text -/

theorem exists_pieces (source : String) :
    ∃ pieces : List String, pieces ≠ [] ∧ ",".intercalate pieces = source ∧
      joints (pieces.map String.toList) = partings source.toList ∧
      splitAlternatives source = pieces.map Text.strip := by
  obtain ⟨hjoin, hjoints⟩ := piecesOf_spec source.toList
  have htexts : ((piecesOf source.toList).map String.ofList).map String.toList =
      piecesOf source.toList := by
    rw [List.map_map]
    exact List.map_id'' (fun _ => String.toList_ofList) _
  refine ⟨(piecesOf source.toList).map String.ofList, List.cons_ne_nil _ _, ?_, ?_, ?_⟩
  · rw [← String.toList_inj, String.toList_intercalate, htexts]
    exact hjoin
  · rw [htexts, hjoints]
  · rw [splitAlternatives, alternativesOf, List.map_map, List.map_map]
    refine List.map_congr_left fun piece _ => ?_
    rw [Function.comp_apply, Function.comp_apply, Text.strip, String.toList_ofList]

theorem readsAs_alternatives (source : String) :
    List.Forall₂ Simple.ReadsAs (splitAlternatives source) (parse source).alternatives := by
  rw [alternatives_parse, splitAlternatives, List.forall₂_map_left_iff,
    List.forall₂_map_right_iff, List.forall₂_same]
  intro piece _
  have hread := Simple.readsAs_read (String.ofList piece)
  rwa [String.toList_ofList] at hread

theorem map_source_alternatives (source : String) :
    (parse source).alternatives.map Simple.source = splitAlternatives source := by
  rw [alternatives_parse, splitAlternatives, List.map_map]
  refine List.map_congr_left fun piece _ => ?_
  rw [← String.toList_inj, Function.comp_apply, Simple.source_read, String.toList_ofList]

/-- A text is cut into pieces that are the text again with commas between them, and that meet
at the commas before which the number of quotes is even and no bracket is open.  Its
alternatives are these pieces without the white space around them, each one read as what the
grammar makes of it; a single one stands by itself.  Written down they are the stripped pieces
again. -/
theorem parse_pieces (source : String) :
    (∃ pieces : List String, pieces ≠ [] ∧ ",".intercalate pieces = source ∧
      joints (pieces.map String.toList) = partings source.toList ∧
      splitAlternatives source = pieces.map Text.strip) ∧
    List.Forall₂ Simple.ReadsAs (splitAlternatives source) (parse source).alternatives ∧
    parse source = ofAlternatives (parse source).alternatives ∧
    (parse source).alternatives.map Simple.source = splitAlternatives source := by
  have hshape : parse source = ofAlternatives (parse source).alternatives := by
    rw [alternatives_parse, parse_eq]
  exact ⟨exists_pieces source, readsAs_alternatives source, hshape, map_source_alternatives source⟩

/-! ### Written selectors -/

variable {s : Simple} {c : Char}

theorem not_space_of_isNameChar (h : Simple.isNameChar c = true) : isSpace c = false := by
  have hname := Simple.isNameChar_iff.mp h
  have hrange : 0x20 < c.toNat ∧ c.toNat < 0x80 := by
    simp only [Simple.IsNameChar, Char.le_def, UInt32.le_iff_toNat_le] at hname
    rcases hname with hupper | hlower | hdigit | rfl | rfl | rfl
    · change 65 ≤ c.toNat ∧ c.toNat ≤ 90 at hupper
      omega
    · change 97 ≤ c.toNat ∧ c.toNat ≤ 122 at hlower
      omega
    · change 48 ≤ c.toNat ∧ c.toNat ≤ 57 at hdigit
      omega
    all_goals decide
  rw [Bool.eq_false_iff]
  simp only [isSpace, ne_eq, Bool.or_eq_true, Bool.and_eq_true, decide_eq_true_eq, beq_iff_eq]
  omega

theorem passes_name {name : String} (h : ∀ c ∈ name.toList, Simple.isNameChar c = true)
    (depth : Nat) (quoted : Bool) : Passes name.toList depth quoted depth quoted := by
  refine .of_plain fun c hc => ?_
  have hname := h c hc
  refine ⟨?_, ?_, ?_, ?_⟩ <;> rintro rfl <;> cases hname

/-- The scan goes over a selector of the grammar without a cut, and leaves nothing open. -/
theorem passes_source (h : s.Formed) : Passes s.source.toList 0 false 0 false := by
  cases s with
  | tag name => exact passes_name h.all 0 false
  | attr only name value =>
    obtain ⟨honly, hname, hvalue⟩ := h
    have hend : Passes ['"', ']'] 1 true 0 false :=
      .cons (by decide) (.cons (by decide) (.nil 0 false))
    have htest : Passes ('=' :: '"' :: (value.toList ++ ['"', ']'])) 1 false 0 false :=
      .cons (by decide) (.cons (by decide) ((Passes.of_quoted hvalue.2).append hend))
    have hbracket : Passes ('[' :: (name.toList ++ '=' :: '"' :: (value.toList ++ ['"', ']'])))
        0 false 0 false := .cons (by decide) ((passes_name hname.all 1 false).append htest)
    rw [Simple.toList_source_attr]
    exact (passes_name (Simple.getD_isName honly) 0 false).append hbracket
  | unsupported text => exact h.elim

theorem stripChars_source (h : s.Formed) : stripChars s.source.toList = s.source.toList := by
  cases s with
  | tag name =>
    refine Text.stripChars_of_ends (fun c hc => ?_) fun c hc => ?_
    · exact not_space_of_isNameChar (h.all c (List.mem_of_mem_head? hc))
    · exact not_space_of_isNameChar (h.all c (List.mem_of_mem_getLast? hc))
  | attr only name value =>
    rw [Simple.toList_source_attr]
    refine Text.stripChars_of_ends (fun c hc => ?_) fun c hc => ?_
    · have hall := Simple.getD_isName h.1
      cases honly : (only.getD "").toList with
      | nil =>
        rw [honly] at hc
        cases hc
        decide
      | cons t ts =>
        rw [honly] at hc hall
        cases hc
        exact not_space_of_isNameChar (hall _ List.mem_cons_self)
    · have hend : (only.getD "").toList ++
          '[' :: (name.toList ++ '=' :: '"' :: (value.toList ++ ['"', ']'])) =
            ((only.getD "").toList ++ '[' :: (name.toList ++ '=' :: '"' :: (value.toList ++ ['"']))) ++
              [']'] := by simp
      rw [hend, List.getLast?_concat] at hc
      cases hc
      decide
  | unsupported text => exact h.elim

/-- A selector of the grammar as it may stand in a list, with white space around it. -/
structure Written where
  before : String
  simple : Simple
  after : String
  formed : simple.Formed
  blank_before : Text.isBlank before = true
  blank_after : Text.isBlank after = true

namespace Written

def text (w : Written) : String := w.before ++ w.simple.source ++ w.after

theorem passes_text (w : Written) : Passes w.text.toList 0 false 0 false := by
  rw [text, String.toList_append, String.toList_append]
  exact ((passes_blank (Text.isBlank_iff.mp w.blank_before)).append (passes_source w.formed)).append
    (passes_blank (Text.isBlank_iff.mp w.blank_after))

theorem read_text (w : Written) : Simple.read (stripChars w.text.toList) = w.simple := by
  rw [text, String.toList_append, String.toList_append,
    Text.stripChars_append_right (Text.isBlank_iff.mp w.blank_after),
    Text.stripChars_append_left (Text.isBlank_iff.mp w.blank_before), stripChars_source w.formed,
    Simple.read_source w.formed]

end Written

theorem piecesOf_written {l : List Written} (h : l ≠ []) :
    piecesOf ([','].intercalate (l.map fun w => w.text.toList)) =
      l.map fun w => w.text.toList := by
  induction l with
  | nil => exact absurd rfl h
  | cons w rest ih =>
    cases rest with
    | nil => simpa using w.passes_text.piecesOf_eq
    | cons next rest =>
      have hrest := ih (List.cons_ne_nil next rest)
      rw [List.map_cons] at hrest
      rw [List.map_cons, List.map_cons, List.intercalate_cons_cons, List.append_assoc,
        List.singleton_append, w.passes_text.piecesOf_comma, hrest]

/-- Selectors of the grammar that are written with commas between them, and with any white
space around each, are read back as they are: a single one by itself, and several as the
alternatives of one selector, in their order. -/
theorem parse_written {l : List Written} (h : l ≠ []) :
    parse (",".intercalate (l.map Written.text)) = ofAlternatives (l.map Written.simple) := by
  have htext : (",".intercalate (l.map Written.text)).toList =
      [','].intercalate (l.map fun w => w.text.toList) := by
    rw [String.toList_intercalate, List.map_map]
    rfl
  have hread : (alternativesOf ([','].intercalate (l.map fun w => w.text.toList))).map
      Simple.read = l.map Written.simple := by
    rw [alternativesOf, piecesOf_written h, List.map_map, List.map_map]
    refine List.map_congr_left fun w _ => ?_
    rw [Function.comp_apply, Function.comp_apply, w.read_text]
  rw [parse_eq, htext, hread]

def writtenPair : List Written :=
  [⟨"\t", .tag "svg:path", " ", by decide, by decide, by decide⟩,
    ⟨"", .attr (some "g") "d" " M0,0]\n", "\n", by decide, by decide, by decide⟩]

theorem parse_written_of_pair :
    writtenPair ≠ [] ∧
      ",".intercalate (writtenPair.map Written.text) = "\tsvg:path ,g[d=\" M0,0]\n\"]\n" ∧
      parse "\tsvg:path ,g[d=\" M0,0]\n\"]\n" =
        .anyOf [.tag "svg:path", .attr (some "g") "d" " M0,0]\n"] := by
  have hne : writtenPair ≠ [] := List.cons_ne_nil _ _
  have htext : ",".intercalate (writtenPair.map Written.text) =
      "\tsvg:path ,g[d=\" M0,0]\n\"]\n" := by decide +kernel
  have hparse := parse_written hne
  rw [htext] at hparse
  exact ⟨hne, htext, hparse⟩

end Selector
end SvgTree
