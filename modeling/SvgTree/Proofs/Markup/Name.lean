/-
Names under namespaces, and what is left of them.

A name is a local name by itself or under a namespace, which then stands in braces before it.
Qualifying puts a usual label in the place of the namespace, drops that of SVG, and keeps the
braces of any other.  The local name can be read off the result in each of these forms.  An
attribute is split at the first colon of its name, which parts it rightly where there is a
label or none, and never where the braces were kept.
-/
import Mathlib.Data.List.TakeDrop
import SvgTree.Attribute.OfValue
import SvgTree.Markup.Name
import SvgTree.Proofs.Attribute.Naming

namespace SvgTree
namespace Markup

def nameIn : Option String → String → String
  | none, rest => rest
  | some uri, rest => "\x7b" ++ uri ++ "\x7d" ++ rest

/-- The usual label of a namespace.  That of SVG has the empty one, as has no namespace. -/
def usualLabel? : Option String → Option String
  | none => some ""
  | some uri => if uri = svgNamespace then some "" else usualLabels.lookup uri

def labelled (label rest : String) : String := if label = "" then rest else label ++ ":" ++ rest

/-- The usual form of a name: its label before it, or its namespace where that has none. -/
def usualForm (ns : Option String) (rest : String) : String :=
  match usualLabel? ns with
  | some label => labelled label rest
  | none => nameIn ns rest

/-- The qualified name; a name that cannot be qualified stays as it is. -/
def usualName (name : String) : String :=
  match qualify name with
  | .ok q => q
  | .error _ => name

def ClosedName (name : String) : Prop := name.toList.head? = some '{' → '}' ∈ name.toList

instance (name : String) : Decidable (ClosedName name) :=
  inferInstanceAs (Decidable (name.toList.head? = some '{' → '}' ∈ name.toList))

def IsLocal (rest : String) : Prop := ∀ c ∈ rest.toList, c ≠ ':' ∧ c ≠ '{' ∧ c ≠ '}'

instance (rest : String) : Decidable (IsLocal rest) :=
  List.decidableBAll (fun c => c ≠ ':' ∧ c ≠ '{' ∧ c ≠ '}') rest.toList

def InBraces (ns : Option String) : Prop := ∀ uri ∈ ns, '}' ∉ uri.toList

instance (ns : Option String) : Decidable (InBraces ns) :=
  inferInstanceAs (Decidable (∀ uri ∈ ns, '}' ∉ uri.toList))

variable {name uri rest label : String} {ns : Option String} {cs us : List Char} {d : Char}

/-! ### Cuts -/

theorem bne_of_notMem (h : d ∉ cs) : ∀ c ∈ cs, (c != d) = true :=
  fun c hc => by simpa using fun heq : c = d => h (heq ▸ hc)

theorem splitBraces_of_notMem (hu : '}' ∉ us) (cs : List Char) :
    splitBraces (us ++ '}' :: cs) = some (us, cs) := by
  have hspan : (us ++ '}' :: cs).span (· != '}') = (us, '}' :: cs) := by
    rw [List.span_eq_takeWhile_dropWhile, List.takeWhile_append_of_pos (bne_of_notMem hu),
      List.dropWhile_append_of_pos (bne_of_notMem hu)]
    simp
  rw [splitBraces, hspan]

theorem splitBraces_eq_none (h : '}' ∉ cs) : splitBraces cs = none := by
  have hspan : cs.span (· != '}') = (cs, []) := by
    rw [List.span_eq_takeWhile_dropWhile, List.takeWhile_eq_self_iff.mpr (bne_of_notMem h),
      List.dropWhile_eq_nil_iff.mpr (bne_of_notMem h)]
  rw [splitBraces, hspan]

theorem afterLastColon_of_notMem (h : ':' ∉ cs) : afterLastColon cs = cs := by
  have hrev : ':' ∉ cs.reverse := fun hmem => h (List.mem_reverse.mp hmem)
  rw [afterLastColon, List.takeWhile_eq_self_iff.mpr (bne_of_notMem hrev), List.reverse_reverse]

theorem afterLastColon_append (ls : List Char) (h : ':' ∉ cs) :
    afterLastColon (ls ++ ':' :: cs) = cs := by
  have hrev : ':' ∉ cs.reverse := fun hmem => h (List.mem_reverse.mp hmem)
  have hturn : (ls ++ ':' :: cs).reverse = cs.reverse ++ ':' :: ls.reverse := by simp
  rw [afterLastColon, hturn, List.takeWhile_append_of_pos (bne_of_notMem hrev)]
  simp

theorem IsLocal.notMem_colon (h : IsLocal rest) : ':' ∉ rest.toList := fun hc => (h _ hc).1 rfl

theorem IsLocal.head?_ne (h : IsLocal rest) : rest.toList.head? ≠ some '{' :=
  fun hc => (h _ (List.mem_of_mem_head? hc)).2.1 rfl

/-! ### Usual labels -/

theorem mem_usualLabels (h : usualLabels.lookup uri = some label) : (uri, label) ∈ usualLabels := by
  obtain ⟨before, after, hsplit, -⟩ := List.lookup_eq_some_iff.mp h
  rw [hsplit]
  exact List.mem_append_right _ List.mem_cons_self

theorem usualLabels_plain : ∀ p ∈ usualLabels,
    p.2 ≠ "" ∧ ':' ∉ p.2.toList ∧ p.2.toList.head? ≠ some '{' := by decide

theorem toList_nameIn (uri rest : String) :
    (nameIn (some uri) rest).toList = '{' :: (uri.toList ++ '}' :: rest.toList) := by
  simp [nameIn]

theorem toList_labelled (hlabel : label ≠ "") (rest : String) :
    (labelled label rest).toList = label.toList ++ ':' :: rest.toList := by
  simp [labelled, hlabel]

theorem head?_labelled (hmem : (uri, label) ∈ usualLabels) (rest : String) :
    (labelled label rest).toList.head? ≠ some '{' := by
  obtain ⟨hne, -, hhead⟩ := usualLabels_plain _ hmem
  obtain ⟨c, cs, hlabel⟩ :=
    List.exists_cons_of_ne_nil fun h => hne (String.toList_eq_nil_iff.mp h)
  rw [toList_labelled hne, hlabel]
  rwa [hlabel] at hhead

theorem usualLabel?_cases (h : usualLabel? ns = some label) :
    (label = "" ∧ ∀ uri ∈ ns, uri = svgNamespace) ∨
      ∃ uri, ns = some uri ∧ (uri, label) ∈ usualLabels := by
  cases ns with
  | none =>
    cases h
    exact .inl ⟨rfl, by simp⟩
  | some uri =>
    rw [usualLabel?] at h
    by_cases huri : uri = svgNamespace
    · rw [if_pos huri] at h
      cases h
      exact .inl ⟨rfl, fun u hu => by cases hu; exact huri⟩
    · rw [if_neg huri] at h
      exact .inr ⟨uri, rfl, mem_usualLabels h⟩

/-! ### Qualifying -/

theorem qualify_of_head (h : name.toList.head? ≠ some '{') : qualify name = .ok name := by
  unfold qualify
  split
  · rename_i cs hcs
    rw [hcs] at h
    exact absurd rfl h
  · rfl

theorem qualify_nameIn (hu : '}' ∉ uri.toList) (rest : String) :
    qualify (nameIn (some uri) rest) = .ok (usualForm (some uri) rest) := by
  rw [qualify, toList_nameIn]
  simp only [splitBraces_of_notMem hu, String.ofList_toList, beq_iff_eq]
  rw [usualForm, usualLabel?]
  by_cases huri : uri = svgNamespace
  · rw [if_pos huri, if_pos huri]
    rfl
  · rw [if_neg huri, if_neg huri]
    cases hlookup : usualLabels.lookup uri with
    | none => rfl
    | some label =>
      have hlabel := (usualLabels_plain _ (mem_usualLabels hlookup)).1
      simp only [labelled, if_neg hlabel]

theorem ClosedName.cases (h : ClosedName name) :
    name.toList.head? ≠ some '{' ∨
      ∃ uri rest, '}' ∉ uri.toList ∧ name = nameIn (some uri) rest := by
  by_cases hhead : name.toList.head? = some '{'
  · obtain ⟨cs, hcs⟩ := List.head?_eq_some_iff.mp hhead
    have hbrace := h hhead
    rw [hcs] at hbrace
    have hmem := (List.mem_cons.mp hbrace).resolve_left (by decide)
    obtain ⟨us, rest, hsplit, hu⟩ := List.eq_append_cons_of_mem hmem
    refine .inr ⟨String.ofList us, String.ofList rest, by simpa using hu, ?_⟩
    rw [← String.toList_inj, toList_nameIn, hcs, hsplit]
    simp
  · exact .inl hhead

theorem closedName_of_qualify {q : String} (h : qualify name = .ok q) : ClosedName name := by
  intro hhead
  obtain ⟨cs, hcs⟩ := List.head?_eq_some_iff.mp hhead
  refine Classical.byContradiction fun hbrace => ?_
  have hmem : '}' ∉ cs := fun hmem => hbrace (hcs ▸ List.mem_cons_of_mem _ hmem)
  rw [qualify, hcs] at h
  simp only [splitBraces_eq_none hmem] at h
  cases h

/-- Names are qualified just where they close the brace that they open with. -/
theorem qualify_eq_ok_iff {q : String} :
    qualify name = .ok q ↔ ClosedName name ∧ q = usualName name := by
  constructor
  · intro h
    refine ⟨closedName_of_qualify h, ?_⟩
    rw [usualName, h]
  · rintro ⟨hclosed, rfl⟩
    rcases hclosed.cases with hhead | ⟨uri, rest, hu, rfl⟩
    · rw [usualName, qualify_of_head hhead]
    · rw [usualName, qualify_nameIn hu]

theorem qualify_local (hns : InBraces ns) (hrest : IsLocal rest) :
    qualify (nameIn ns rest) = .ok (usualForm ns rest) := by
  cases ns with
  | none => exact qualify_of_head hrest.head?_ne
  | some uri => exact qualify_nameIn (hns uri rfl) rest

/-! ### The local name -/

theorem localName_of_head (h : name.toList.head? ≠ some '{') :
    localName name = .ok (String.ofList (afterLastColon name.toList)) := by
  unfold localName
  split
  · rename_i cs hcs
    rw [hcs] at h
    exact absurd rfl h
  · rfl

theorem localName_usualForm (hns : InBraces ns) (hrest : IsLocal rest) :
    localName (usualForm ns rest) = .ok rest := by
  have hplain : localName rest = .ok rest := by
    rw [localName_of_head hrest.head?_ne, afterLastColon_of_notMem hrest.notMem_colon,
      String.ofList_toList]
  unfold usualForm
  cases hlabel : usualLabel? ns with
  | some label =>
    rcases usualLabel?_cases hlabel with ⟨rfl, -⟩ | ⟨uri, rfl, hmem⟩
    · exact hplain
    · have hne := (usualLabels_plain _ hmem).1
      rw [localName_of_head (head?_labelled hmem rest), toList_labelled hne,
        afterLastColon_append _ hrest.notMem_colon, String.ofList_toList]
  | none =>
    cases ns with
    | none => exact hplain
    | some uri =>
      simp only [localName, toList_nameIn, splitBraces_of_notMem (hns uri rfl),
        String.ofList_toList]

/-! ### Attributes of usual names -/

theorem splitChars_append (hne : us ≠ []) (hu : ':' ∉ us) (cs : List Char) :
    Attribute.splitChars (us ++ ':' :: cs) = (us, cs) := by
  have htake : (us ++ ':' :: cs).takeWhile (· != ':') = us := by
    rw [List.takeWhile_append_of_pos (bne_of_notMem hu)]
    simp
  have hdrop : (us ++ ':' :: cs).dropWhile (· != ':') = ':' :: cs := by
    rw [List.dropWhile_append_of_pos (bne_of_notMem hu)]
    simp
  simp only [Attribute.splitChars, htake, hdrop]
  exact if_neg fun h => hne (List.isEmpty_iff.mp h)

theorem splitName_of_mem (hmem : (uri, label) ∈ usualLabels) (rest : String) :
    Attribute.splitName (labelled label rest) = (label, rest) := by
  obtain ⟨hne, hcolon, -⟩ := usualLabels_plain _ hmem
  have hne' : label.toList ≠ [] := fun h => hne (String.toList_eq_nil_iff.mp h)
  rw [Attribute.splitName, toList_labelled hne, splitChars_append hne' hcolon]
  simp

theorem splitName_labelled (hlabel : usualLabel? ns = some label) (hrest : IsLocal rest) :
    Attribute.splitName (labelled label rest) = (label, rest) := by
  rcases usualLabel?_cases hlabel with ⟨rfl, -⟩ | ⟨uri, rfl, hmem⟩
  · have hsplit : Attribute.splitChars rest.toList = ([], rest.toList) := by
      rcases Attribute.splitChars_cases rest.toList with ⟨h, -⟩ | ⟨us, cs, -, -, -, hcs⟩
      · exact h
      · refine absurd ?_ hrest.notMem_colon
        rw [hcs]
        exact List.mem_append_right _ List.mem_cons_self
    rw [labelled, if_pos rfl, Attribute.splitName, hsplit]
    simp
  · exact splitName_of_mem hmem rest

theorem isBlank_of_mem (hd : d ∈ name.toList) (h : Text.isSpace d = false) :
    Text.isBlank name = false := by
  rw [Text.isBlank, List.all_eq_false]
  exact ⟨d, hd, by rw [h]; decide⟩

theorem isBlank_labelled (hlabel : usualLabel? ns = some label) (rest : String) :
    Text.isBlank (labelled label rest) = false ↔ (label = "" → Text.isBlank rest = false) := by
  rcases usualLabel?_cases hlabel with ⟨rfl, -⟩ | ⟨uri, rfl, hmem⟩
  · simp [labelled]
  · have hne := (usualLabels_plain _ hmem).1
    have hcolon : ':' ∈ (labelled label rest).toList := by
      rw [toList_labelled hne]
      exact List.mem_append_right _ List.mem_cons_self
    simp [isBlank_of_mem hcolon (by decide), hne]

theorem ofValues_texts_iff {value : String} {a : Attribute} :
    Attribute.ofValues (.text name) (.text value) = .ok a ↔
      Text.isBlank name = false ∧ a.name = name ∧ a.value = value := by
  simp only [Attribute.ofValues]
  split
  · rename_i h
    constructor
    · intro ha
      cases ha
      exact ⟨h, rfl, rfl⟩
    · rintro ⟨-, rfl, rfl⟩
      rfl
  · rename_i h
    exact ⟨fun ha => (by cases ha), fun ha => absurd ha.1 h⟩

/-- A local name survives qualification under every namespace.  Where the namespace has a usual
label, the attribute of the qualified name can be made unless that name is blank, and is split
into the label and the local name. -/
theorem local_name_survives (hns : InBraces ns) (hrest : IsLocal rest) :
    ∃ q, qualify (nameIn ns rest) = .ok q ∧ localName q = .ok rest ∧
      ∀ label, usualLabel? ns = some label → ∀ value,
        ((∃ a, Attribute.ofValues (.text q) (.text value) = .ok a) ↔
          (label = "" → Text.isBlank rest = false)) ∧
        ∀ a, Attribute.ofValues (.text q) (.text value) = .ok a →
          a.value = value ∧ a.label = label ∧ a.localName = rest := by
  refine ⟨usualForm ns rest, qualify_local hns hrest, localName_usualForm hns hrest, ?_⟩
  intro label hlabel value
  have hform : usualForm ns rest = labelled label rest := by rw [usualForm, hlabel]
  rw [hform, ← isBlank_labelled hlabel]
  simp only [ofValues_texts_iff]
  refine ⟨⟨fun ⟨_, h, _⟩ => h, fun h => ⟨⟨_, value, h⟩, h, rfl, rfl⟩⟩, fun a ha => ?_⟩
  obtain ⟨-, hname, hvalue⟩ := ha
  rw [Attribute.label, Attribute.localName, hname, splitName_labelled hlabel hrest]
  exact ⟨hvalue, rfl, rfl⟩

theorem local_name_survives_of_xlink :
    InBraces (some "http://www.w3.org/1999/xlink") ∧ IsLocal "href" ∧
      ∃ q, qualify (nameIn (some "http://www.w3.org/1999/xlink") "href") = .ok q ∧
        localName q = .ok "href" ∧
        ∃ a, Attribute.ofValues (.text q) (.text "v") = .ok a ∧
          a.value = "v" ∧ a.label = "xlink" ∧ a.localName = "href" := by
  have hns : InBraces (some "http://www.w3.org/1999/xlink") := by decide
  have hrest : IsLocal "href" := by decide
  obtain ⟨q, hq, hlocal, hsplit⟩ := local_name_survives hns hrest
  obtain ⟨hmade, hparts⟩ := hsplit "xlink" rfl "v"
  obtain ⟨a, ha⟩ := hmade.mpr (by decide)
  exact ⟨hns, hrest, q, hq, hlocal, a, ha, hparts a ha⟩

/-- An attribute of a name that keeps its braces is split within the namespace, and one of a
blank name cannot be made. -/
theorem split_within_namespace :
    (InBraces (some "urn:example") ∧ IsLocal "thing" ∧
      ∃ q a, qualify (nameIn (some "urn:example") "thing") = .ok q ∧
        localName q = .ok "thing" ∧ Attribute.ofValues (.text q) (.text "v") = .ok a ∧
        a.label = "\x7burn" ∧ a.localName = "example\x7dthing") ∧
    IsLocal " " ∧ qualify (nameIn none " ") = .ok " " ∧
      Attribute.ofValues (.text " ") (.text "v") = .error (.nameMissing (.text " ")) :=
  ⟨⟨by decide, by decide, "\x7burn:example\x7dthing",
    ⟨"\x7burn:example\x7dthing", "v", by decide⟩, rfl, rfl, rfl, by decide, by decide⟩,
    by decide, rfl, rfl⟩

end Markup
end SvgTree
