/-
What insertions do to a set of attributes.

A set is read through its members: an inserted attribute is one, in the place of the one of
its name.  So inserting a member changes nothing, and a run of insertions of distinct names
changes nothing just when all of them are members already.  Setting the entries of a mapping
is such a run, as long as no name is blank.
-/
import Mathlib.Data.List.Nodup
import SvgTree.Attribute.OfValue

namespace SvgTree

theorem Attribute.ext {a b : Attribute} (hn : a.name = b.name) (hv : a.value = b.value) :
    a = b := by
  cases a
  cases b
  subst hn hv
  rfl

def Attribute.entry (a : Attribute) : Value × Value := (.text a.name, .text a.value)

namespace Attributes

variable {m k : Attributes} {a b : Attribute} {l : List Attribute} {n v : String}

theorem ext (h : m.entries = k.entries) : m = k := by
  cases m
  cases k
  subst h
  rfl

theorem eq_of_name (h : (l.map Attribute.name).Nodup) (ha : a ∈ l) (hb : b ∈ l)
    (hn : a.name = b.name) : a = b :=
  List.inj_on_of_nodup_map h ha hb hn

/-! ### Looking up -/

theorem get?_eq_some_iff : m.get? n = some a ↔ a ∈ m.entries ∧ a.name = n := by
  unfold get?
  constructor
  · intro h
    exact ⟨List.mem_of_find?_eq_some h, by simpa using List.find?_some h⟩
  · rintro ⟨ha, hn⟩
    cases hf : m.entries.find? (·.name == n) with
    | none => exact absurd hn (by simpa using List.find?_eq_none.mp hf a ha)
    | some b =>
      have hb : b.name = n := by simpa using List.find?_some hf
      rw [eq_of_name m.distinct (List.mem_of_find?_eq_some hf) ha (hb.trans hn.symm)]

theorem has_iff : m.has n (some v) = true ↔ ∃ a ∈ m.entries, a.name = n ∧ a.value = v := by
  unfold has
  cases hg : m.get? n with
  | none =>
    simp only [Bool.false_eq_true, false_iff]
    rintro ⟨a, ha, hn, -⟩
    rw [get?_eq_some_iff.mpr ⟨ha, hn⟩] at hg
    cases hg
  | some a =>
    obtain ⟨ha, hn⟩ := get?_eq_some_iff.mp hg
    simp only [beq_iff_eq]
    constructor
    · exact fun hv => ⟨a, ha, hn, hv⟩
    · rintro ⟨b, hb, hbn, hv⟩
      rw [eq_of_name m.distinct ha hb (hn.trans hbn.symm), hv]

theorem has_self_iff : m.has a.name (some a.value) = true ↔ a ∈ m.entries := by
  rw [has_iff]
  constructor
  · rintro ⟨b, hb, hn, hv⟩
    rwa [← Attribute.ext hn hv]
  · exact fun ha => ⟨a, ha, rfl, rfl⟩

theorem has_of_isBlank (hn : Text.isBlank n = true) : m.has n (some v) = false := by
  rw [Bool.eq_false_iff]
  intro h
  obtain ⟨a, -, ha, -⟩ := has_iff.mp h
  have hvisible := a.visible
  rw [ha, hn] at hvisible
  cases hvisible

/-! ### Inserting -/

theorem mem_place_self : a ∈ place a l := by
  induction l with
  | nil => exact List.mem_singleton_self a
  | cons b rest ih =>
    by_cases hb : b.name = a.name
    · rw [place, if_pos hb]
      exact List.mem_cons_self
    · rw [place, if_neg hb]
      exact List.mem_cons_of_mem _ ih

theorem mem_place_of_ne (hb : b ∈ l) (hne : b.name ≠ a.name) : b ∈ place a l := by
  induction l with
  | nil => exact absurd hb List.not_mem_nil
  | cons c rest ih =>
    by_cases hc : c.name = a.name
    · have hbc : b ≠ c := fun h => hne (h ▸ hc)
      rw [place, if_pos hc]
      exact List.mem_cons_of_mem _ ((List.mem_cons.mp hb).resolve_left hbc)
    · rw [place, if_neg hc]
      rcases List.mem_cons.mp hb with rfl | hb
      · exact List.mem_cons_self
      · exact List.mem_cons_of_mem _ (ih hb)

theorem place_of_mem (h : (l.map Attribute.name).Nodup) (ha : a ∈ l) : place a l = l := by
  induction l with
  | nil => exact absurd ha List.not_mem_nil
  | cons b rest ih =>
    by_cases hb : b.name = a.name
    · rw [place, if_pos hb, eq_of_name h ha List.mem_cons_self hb.symm]
    · have hab : a ≠ b := fun h => hb (h ▸ rfl)
      rw [List.map_cons, List.nodup_cons] at h
      rw [place, if_neg hb, ih h.2 ((List.mem_cons.mp ha).resolve_left hab)]

theorem place_of_notMem (h : a.name ∉ l.map Attribute.name) : place a l = l ++ [a] := by
  induction l with
  | nil => rfl
  | cons b rest ih =>
    rw [List.map_cons, List.mem_cons, not_or] at h
    rw [place, if_neg (Ne.symm h.1), ih h.2, List.cons_append]

theorem mem_insert_self : a ∈ (m.insert a).entries := mem_place_self

theorem mem_insert_of_ne (hb : b ∈ m.entries) (hne : b.name ≠ a.name) :
    b ∈ (m.insert a).entries :=
  mem_place_of_ne hb hne

theorem insert_of_mem (ha : a ∈ m.entries) : m.insert a = m := ext (place_of_mem m.distinct ha)

/-! ### Runs of insertions -/

theorem mem_foldl_insert_of_notMem (hb : b ∈ m.entries) (hn : b.name ∉ l.map Attribute.name) :
    b ∈ (l.foldl insert m).entries := by
  induction l generalizing m with
  | nil => exact hb
  | cons a rest ih =>
    rw [List.map_cons, List.mem_cons, not_or] at hn
    exact ih (mem_insert_of_ne hb hn.1) hn.2

theorem mem_foldl_insert (h : (l.map Attribute.name).Nodup) (ha : a ∈ l) :
    a ∈ (l.foldl insert m).entries := by
  induction l generalizing m with
  | nil => exact absurd ha List.not_mem_nil
  | cons b rest ih =>
    rw [List.map_cons, List.nodup_cons] at h
    rw [List.foldl_cons]
    rcases List.mem_cons.mp ha with rfl | ha
    · exact mem_foldl_insert_of_notMem mem_insert_self h.1
    · exact ih h.2 ha

theorem foldl_insert_of_subset (h : ∀ a ∈ l, a ∈ m.entries) : l.foldl insert m = m := by
  induction l with
  | nil => rfl
  | cons a rest ih =>
    rw [List.foldl_cons, insert_of_mem (h a List.mem_cons_self)]
    exact ih fun b hb => h b (List.mem_cons_of_mem _ hb)

theorem foldl_insert_eq_self_iff (h : (l.map Attribute.name).Nodup) :
    l.foldl insert m = m ↔ ∀ a ∈ l, a ∈ m.entries := by
  constructor
  · intro heq a ha
    have hmem := mem_foldl_insert (m := m) h ha
    rwa [heq] at hmem
  · exact foldl_insert_of_subset

theorem entries_foldl_insert (h : ((m.entries ++ l).map Attribute.name).Nodup) :
    (l.foldl insert m).entries = m.entries ++ l := by
  induction l generalizing m with
  | nil => rw [List.foldl_nil, List.append_nil]
  | cons a rest ih =>
    have hmid : (m.insert a).entries = m.entries ++ [a] := by
      refine place_of_notMem fun hmem => ?_
      rw [List.map_append, List.nodup_append] at h
      exact h.2.2 a.name hmem a.name (List.mem_map_of_mem List.mem_cons_self) rfl
    have happend : m.entries ++ a :: rest = (m.insert a).entries ++ rest := by
      rw [hmid, List.append_assoc, List.singleton_append]
    rw [happend] at h ⊢
    exact ih h

/-! ### Setting by name and value -/

theorem set_visible (m : Attributes) (a : Attribute) :
    m.set (.text a.name) (.text a.value) = .ok (m.insert a) := by
  simp [set, Attribute.ofValues, a.visible, Except.map]

theorem set_blank (hn : Text.isBlank n = true) :
    m.set (.text n) (.text v) = .error (.nameMissing (.text n)) := by
  simp [set, Attribute.ofValues, hn, Except.map]

theorem setAll_entries (m : Attributes) (l : List Attribute) :
    m.setAll (l.map Attribute.entry) = .ok (l.foldl insert m) := by
  induction l generalizing m with
  | nil => rfl
  | cons a rest ih =>
    rw [List.map_cons, Attribute.entry, setAll, set_visible, List.foldl_cons]
    exact ih (m.insert a)

theorem entries_ofList (h : (l.map Attribute.name).Nodup) : (ofList l).entries = l :=
  entries_foldl_insert (m := empty) h

theorem ofList_entries (m : Attributes) : ofList m.entries = m := ext (entries_ofList m.distinct)

/-- What can be set is a text that is not blank, to a text. -/
theorem of_set {name value : Value} (h : m.set name value = .ok k) :
    ∃ a : Attribute, (name, value) = a.entry ∧ k = m.insert a := by
  unfold set Attribute.ofValues at h
  cases name with
  | text n =>
    by_cases hn : Text.isBlank n = false
    · cases value with
      | text v =>
        simp only [hn, dite_true, Except.map] at h
        cases h
        exact ⟨⟨n, v, hn⟩, rfl, rfl⟩
      | _ =>
        simp only [hn, dite_true, Except.map] at h
        cases h
    · simp only [hn, Except.map] at h
      cases h
  | _ => cases h

theorem of_setAll {entries : List (Value × Value)} (h : m.setAll entries = .ok k) :
    ∃ l : List Attribute, entries = l.map Attribute.entry ∧ k = l.foldl insert m := by
  induction entries generalizing m with
  | nil =>
    cases h
    exact ⟨[], rfl, rfl⟩
  | cons e rest ih =>
    obtain ⟨name, value⟩ := e
    rw [setAll] at h
    split at h
    · rename_i hset
      obtain ⟨a, ha, rfl⟩ := of_set hset
      obtain ⟨l, rfl, rfl⟩ := ih h
      exact ⟨a :: l, by rw [ha, List.map_cons], rfl⟩
    · cases h

theorem of_putAll {entries : List (Value × Value)} (h : m.putAll entries = .ok k) :
    ∃ l : List Attribute, entries.map Prod.snd = l.map Value.attr ∧ k = l.foldl insert m := by
  induction entries generalizing m with
  | nil =>
    cases h
    exact ⟨[], rfl, rfl⟩
  | cons e rest ih =>
    obtain ⟨key, value⟩ := e
    cases value with
    | attr a =>
      obtain ⟨l, hl, rfl⟩ := ih (m := m.insert a) h
      exact ⟨a :: l, by rw [List.map_cons, hl, List.map_cons], rfl⟩
    | _ => cases h

theorem hasValue_text (m : Attributes) (n v : String) :
    m.hasValue (.text n) (.text v) = .ok (m.has n (some v)) := by
  simp only [hasValue, getValue?, has]
  cases m.get? n with
  | none => rfl
  | some a => simp [Value.isText, eq_comm]

theorem hasValue_null (m : Attributes) (n : String) :
    m.hasValue (.text n) .null = .ok (m.has n none) := by
  simp only [hasValue, getValue?, has]
  cases m.get? n <;> rfl

end Attributes
end SvgTree
