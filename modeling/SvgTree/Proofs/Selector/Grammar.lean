/-
The grammar of simple selectors.

A simple selector of the grammar is a name, or a test of an attribute: the name of the
attribute and a value in double quotes, in brackets, with a name before them or without one.
`source` writes a simple selector down, and `Formed` says which ones the grammar has.  Reading
is the inverse of writing: a text is read as a selector of the grammar just when it is what
that selector is written as, and every other text stays unsupported and whole.
-/
import Mathlib.Data.List.TakeDrop
import Mathlib.Data.List.TakeWhile
import SvgTree.Selector.Basic

namespace SvgTree
namespace Simple

def IsNameChar (c : Char) : Prop :=
  'A' ≤ c ∧ c ≤ 'Z' ∨ 'a' ≤ c ∧ c ≤ 'z' ∨ '0' ≤ c ∧ c ≤ '9' ∨ c = '_' ∨ c = ':' ∨ c = '-'

def IsName (s : String) : Prop := s ≠ "" ∧ ∀ c ∈ s.toList, IsNameChar c

/-- The value of an attribute test: any text that ends at the first double quote. -/
def IsTestValue (s : String) : Prop := s ≠ "" ∧ '"' ∉ s.toList

instance (s : String) : Decidable (IsTestValue s) := inferInstanceAs (Decidable (_ ∧ _))

def source : Simple → String
  | tag name => name
  | attr only name value => only.getD "" ++ "[" ++ name ++ "=\"" ++ value ++ "\"]"
  | unsupported source => source

/-- The simple selectors of the grammar. -/
def Formed : Simple → Prop
  | tag name => IsName name
  | attr only name value => (∀ t ∈ only, IsName t) ∧ IsName name ∧ IsTestValue value
  | unsupported _ => False

/-- What a text is read as: a name as a tag, a written test as that test, and any text that is
neither as itself. -/
structure ReadsAs (text : String) (s : Simple) : Prop where
  tag : ∀ name, s = .tag name ↔ name = text ∧ IsName text
  attr : ∀ only name value, s = .attr only name value ↔
    (Simple.attr only name value).source = text ∧ (∀ t ∈ only, IsName t) ∧ IsName name ∧
      IsTestValue value
  unsupported : ∀ rest, s = .unsupported rest ↔
    rest = text ∧ ∀ t : Simple, t.Formed → t.source ≠ text

variable {cs l r : List Char} {c : Char} {name value : String} {s : Simple}

/-! ### Names -/

theorem isNameChar_iff : isNameChar c = true ↔ IsNameChar c := by
  rw [isNameChar]
  -- the library says nothing on these tests but how they compare code points
  delta Char.isAlphanum Char.isAlpha Char.isUpper Char.isLower Char.isDigit
  simp only [IsNameChar, Bool.or_eq_true, Bool.and_eq_true, decide_eq_true_eq, beq_iff_eq,
    Char.le_def, ge_iff_le, or_assoc]

theorem toList_ne_nil {s : String} : s.toList ≠ [] ↔ s ≠ "" := by
  rw [Ne, Ne, String.toList_eq_nil_iff]

theorem isName_iff : isName name.toList = true ↔ IsName name := by
  simp only [isName, IsName, Bool.and_eq_true, Bool.not_eq_true', List.isEmpty_eq_false_iff,
    List.all_eq_true, isNameChar_iff, toList_ne_nil]

instance (s : String) : Decidable (IsName s) := decidable_of_iff (isName s.toList = true) isName_iff

instance : (s : Simple) → Decidable s.Formed
  | tag name => inferInstanceAs (Decidable (IsName name))
  | attr only name value =>
    inferInstanceAs (Decidable ((∀ t ∈ only, IsName t) ∧ IsName name ∧ IsTestValue value))
  | unsupported _ => inferInstanceAs (Decidable False)

theorem IsName.all (h : IsName name) : ∀ c ∈ name.toList, isNameChar c = true :=
  fun c hc => isNameChar_iff.mpr (h.2 c hc)

theorem isName_of_all (hne : cs ≠ []) (h : ∀ c ∈ cs, isNameChar c = true) :
    IsName (String.ofList cs) := by
  refine ⟨?_, fun c hc => isNameChar_iff.mp (h c ?_)⟩
  · rwa [← toList_ne_nil, String.toList_ofList]
  · rwa [String.toList_ofList] at hc

/-! ### Longest beginnings -/

theorem span_stop {p : Char → Bool} (h : ∀ x ∈ l, p x = true) (hc : p c = false) :
    (l ++ c :: r).span p = (l, c :: r) := by
  rw [List.span_eq_takeWhile_dropWhile, List.takeWhile_append_of_pos h,
    List.dropWhile_append_of_pos h]
  simp [hc]

theorem of_span {p : Char → Bool} (h : cs.span p = (l, r)) :
    cs = l ++ r ∧ ∀ x ∈ l, p x = true := by
  rw [List.span_eq_takeWhile_dropWhile] at h
  obtain ⟨rfl, rfl⟩ := Prod.mk.inj h
  exact ⟨List.takeWhile_append_dropWhile.symm, fun x hx => List.mem_takeWhile_imp hx⟩

/-! ### Reading what is written -/

theorem toList_source_attr (only : Option String) (name value : String) :
    (Simple.attr only name value).source.toList = (only.getD "").toList ++
      '[' :: (name.toList ++ '=' :: '"' :: (value.toList ++ ['"', ']'])) := by
  simp [source]

theorem readTest_written {key text : List Char} (hkey : key ≠ [])
    (hname : ∀ x ∈ key, isNameChar x = true) (htext : text ≠ []) (hquote : '"' ∉ text) :
    readTest (key ++ '=' :: '"' :: (text ++ ['"', ']'])) =
      some (String.ofList key, String.ofList text) := by
  have hfirst := span_stop (r := '"' :: (text ++ ['"', ']'])) hname
    (by decide : isNameChar '=' = false)
  have hinside : ∀ x ∈ text, (x != '"') = true :=
    fun x hx => bne_iff_ne.mpr fun heq => hquote (heq ▸ hx)
  have hrest := span_stop (r := [']']) hinside (by decide : ('"' != '"') = false)
  cases key with
  | nil => exact absurd rfl hkey
  | cons k ks =>
    cases text with
    | nil => exact absurd rfl htext
    | cons v vs =>
      rw [readTest, hfirst]
      simp only [hrest]

theorem getD_isName {only : Option String} (h : ∀ t ∈ only, IsName t) :
    ∀ c ∈ (only.getD "").toList, isNameChar c = true := by
  cases only with
  | none => simp
  | some t => exact (h t rfl).all

/-- A selector of the grammar is read back from what it is written as. -/
theorem read_source (h : s.Formed) : read s.source.toList = s := by
  cases s with
  | tag name =>
    rw [source, read, if_pos (isName_iff.mpr h), String.ofList_toList]
  | attr only name value =>
    obtain ⟨honly, hname, hvalue⟩ := h
    have htag := span_stop (r := name.toList ++ '=' :: '"' :: (value.toList ++ ['"', ']']))
      (getD_isName honly) (by decide : isNameChar '[' = false)
    have htest := readTest_written (toList_ne_nil.mpr hname.1) hname.all
      (toList_ne_nil.mpr hvalue.1) hvalue.2
    have hbracket : isName (Simple.attr only name value).source.toList = false := by
      rw [toList_source_attr, isName, List.all_append]
      simp [isNameChar]
    rw [read, hbracket, toList_source_attr, htag]
    simp only [Bool.false_eq_true, if_false, htest, String.ofList_toList]
    cases only with
    | none => rfl
    | some t => simp [(honly t rfl).1]
  | unsupported text => exact h.elim

theorem of_readTest (h : readTest cs = some (name, value)) :
    cs = name.toList ++ '=' :: '"' :: (value.toList ++ ['"', ']']) ∧ IsName name ∧
      IsTestValue value := by
  unfold readTest at h
  split at h
  · cases h
  · rename_i key rest hne hkey
    split at h
    · cases h
    · rename_i v hvne hv
      cases h
      obtain ⟨rfl, hall⟩ := of_span hkey
      obtain ⟨rfl, hquotes⟩ := of_span hv
      have hquote : '"' ∉ v := fun hmem => by simpa using hquotes '"' hmem
      refine ⟨by rw [String.toList_ofList, String.toList_ofList], isName_of_all hne hall, ?_, ?_⟩
      · rw [← toList_ne_nil, String.toList_ofList]
        exact hvne
      · rwa [String.toList_ofList]
    · cases h
  · cases h

theorem read_cases (cs : List Char) :
    ((read cs).Formed ∧ (read cs).source.toList = cs) ∨
      read cs = .unsupported (String.ofList cs) := by
  unfold read
  split
  · rename_i hname
    left
    rw [← String.toList_ofList (l := cs)] at hname
    exact ⟨isName_iff.mp hname, String.toList_ofList⟩
  split
  · rename_i tag rest hspan
    split
    · rename_i key value htest
      left
      obtain ⟨rfl, hall⟩ := of_span hspan
      obtain ⟨rfl, hkey, hvalue⟩ := of_readTest htest
      refine ⟨⟨?_, hkey, hvalue⟩, ?_⟩
      · intro t ht
        split at ht
        · cases ht
        · rename_i hne
          cases ht
          exact isName_of_all (by simpa using hne) hall
      · rw [toList_source_attr]
        by_cases htag : tag = []
        · simp [htag]
        · simp [htag]
    · exact .inr rfl
  · exact .inr rfl

theorem source_read (cs : List Char) : (read cs).source.toList = cs := by
  rcases read_cases cs with ⟨-, hsource⟩ | hrest
  · exact hsource
  · rw [hrest, source, String.toList_ofList]

theorem formed_of_supported (h : (read cs).isSupported = true) : (read cs).Formed := by
  rcases read_cases cs with ⟨hformed, -⟩ | hrest
  · exact hformed
  · rw [hrest] at h
    cases h

theorem read_eq_iff (h : s.Formed) {text : String} : read text.toList = s ↔ s.source = text := by
  constructor
  · rintro rfl
    exact String.toList_inj.mp (source_read text.toList)
  · rintro rfl
    exact read_source h

/-- Every text is read as what the grammar makes of it. -/
theorem readsAs_read (text : String) : ReadsAs text (read text.toList) where
  tag name := by
    constructor
    · intro h
      have hformed : (read text.toList).Formed := formed_of_supported (by rw [h]; rfl)
      rw [h] at hformed
      have hname := (read_eq_iff hformed).mp h
      exact ⟨hname, hname ▸ hformed⟩
    · rintro ⟨rfl, hname⟩
      exact read_source (s := .tag name) hname
  attr only name value := by
    constructor
    · intro h
      have hformed : (read text.toList).Formed := formed_of_supported (by rw [h]; rfl)
      rw [h] at hformed
      exact ⟨(read_eq_iff hformed).mp h, hformed⟩
    · rintro ⟨hsource, hformed⟩
      exact (read_eq_iff (s := .attr only name value) hformed).mpr hsource
  unsupported rest := by
    constructor
    · intro h
      have hsource := source_read text.toList
      rw [h] at hsource
      refine ⟨String.toList_inj.mp hsource, fun t ht heq => ?_⟩
      rw [(read_eq_iff ht).mpr heq] at h
      exact (h ▸ ht : (Simple.unsupported rest).Formed)
    · rintro ⟨rfl, hnone⟩
      rcases read_cases rest.toList with ⟨hformed, hsource⟩ | hrest
      · exact absurd (String.toList_inj.mp hsource) (hnone _ hformed)
      · rw [hrest, String.ofList_toList]

end Simple
end SvgTree
