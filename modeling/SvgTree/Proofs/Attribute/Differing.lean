/-
Where two sets of attributes differ.

A set is read by name: under each name it has a value or none.  Two sets differ under the names
where these are not the same.  Where edits are made one after the other and none changes what
another did, the last set differs from the first under as many names as each differs from the
one before.  So a loop that counts its edits counts the names under which they made a
difference.

An `Editor` makes new attributes of old ones, and does it once and for all: what it has edited it
leaves as it is.
-/
import Mathlib.Data.List.Dedup
import SvgTree.Proofs.Attribute.History

namespace SvgTree
namespace Attributes

variable {m k p : Attributes} {a : Attribute} {n v : String} {l : List Attribute}
  {names : List String}

/-! ### Values -/

def value? (m : Attributes) (n : String) : Option String := (m.get? n).map (·.value)

theorem value?_eq_some_iff :
    m.value? n = some v ↔ ∃ a ∈ m.entries, a.name = n ∧ a.value = v := by
  rw [value?, Option.map_eq_some_iff]
  refine exists_congr fun a => ?_
  rw [get?_eq_some_iff, and_assoc]

theorem value?_self_iff : m.value? a.name = some a.value ↔ a ∈ m.entries := by
  rw [value?_eq_some_iff]
  constructor
  · intro h
    obtain ⟨b, hb, hname, hvalue⟩ := h
    rwa [← Attribute.ext hname hvalue]
  · intro ha
    exact ⟨a, ha, rfl, rfl⟩

theorem value?_eq_none_iff : m.value? n = none ↔ n ∉ m.names := by
  rw [value?, Option.map_eq_none_iff, mem_names_iff]
  cases m.get? n <;> simp

theorem has_none_eq (m : Attributes) (n : String) : m.has n none = (m.value? n).isSome := by
  unfold has value?
  cases m.get? n <;> rfl

theorem value?_insert (m : Attributes) (a : Attribute) (n : String) :
    (m.insert a).value? n = if n = a.name then some a.value else m.value? n := by
  by_cases hn : n = a.name
  · rw [if_pos hn, hn]
    exact value?_self_iff.mpr mem_insert_self
  · rw [if_neg hn]
    refine Option.ext fun v => ?_
    rw [value?_eq_some_iff, value?_eq_some_iff]
    refine exists_congr fun b => ?_
    rw [mem_insert_iff]
    constructor
    · intro h
      obtain ⟨hb, hname, hvalue⟩ := h
      refine ⟨?_, hname, hvalue⟩
      refine (hb.resolve_left fun hba => ?_).2
      exact hn (hname.symm.trans (congrArg Attribute.name hba))
    · intro h
      obtain ⟨hb, hname, hvalue⟩ := h
      exact ⟨.inr ⟨fun hab => hn (hname.symm.trans hab.symm), hb⟩, hname, hvalue⟩

theorem value?_erase (m : Attributes) (name n : String) :
    (m.erase name).value? n = if n = name then none else m.value? n := by
  refine Option.ext fun v => ?_
  rw [value?_eq_some_iff]
  by_cases hn : n = name
  · rw [if_pos hn]
    refine iff_of_false ?_ (by simp)
    intro h
    obtain ⟨b, hb, hname, -⟩ := h
    exact (mem_erase_iff.mp hb).1 (hn.symm.trans hname.symm)
  · rw [if_neg hn, value?_eq_some_iff]
    refine exists_congr fun b => ?_
    rw [mem_erase_iff]
    constructor
    · intro h
      exact ⟨h.1.2, h.2⟩
    · intro h
      exact ⟨⟨fun hb => hn (h.2.1.symm.trans hb.symm), h.1⟩, h.2⟩

theorem erase_of_value?_none (h : m.value? n = none) : m.erase n = m := by
  refine ext (List.filter_eq_self.mpr ?_)
  intro a ha
  have hne : a.name ≠ n := by
    intro hn
    exact value?_eq_none_iff.mp h (hn ▸ List.mem_map_of_mem ha)
  simpa using hne

/-! ### Runs of edits -/

theorem value?_foldl_insert_of_notMem (h : n ∉ l.map Attribute.name) :
    (l.foldl insert m).value? n = m.value? n := by
  induction l generalizing m with
  | nil => rfl
  | cons a rest ih =>
    rw [List.map_cons, List.mem_cons, not_or] at h
    rw [List.foldl_cons, ih h.2, value?_insert, if_neg h.1]

theorem value?_foldl_insert_of_mem (h : (l.map Attribute.name).Nodup) (ha : a ∈ l) :
    (l.foldl insert m).value? a.name = some a.value :=
  value?_self_iff.mpr (mem_foldl_insert h ha)

theorem value?_foldl_erase (names : List String) (m : Attributes) (n : String) :
    (names.foldl erase m).value? n = if n ∈ names then none else m.value? n := by
  induction names generalizing m with
  | nil => rfl
  | cons name rest ih =>
    rw [List.foldl_cons, ih, value?_erase]
    by_cases hn : n = name
    · simp [hn]
    · simp [hn]

theorem foldl_erase_of_none (h : ∀ n ∈ names, m.value? n = none) : names.foldl erase m = m := by
  induction names with
  | nil => rfl
  | cons name rest ih =>
    rw [List.foldl_cons, erase_of_value?_none (h name List.mem_cons_self)]
    exact ih fun n hn => h n (List.mem_cons_of_mem _ hn)

theorem entries_foldl_erase (m : Attributes) (names : List String) :
    (names.foldl erase m).entries = m.entries.filter fun a => !names.contains a.name := by
  induction names generalizing m with
  | nil => exact (List.filter_eq_self.mpr fun a _ => rfl).symm
  | cons n rest ih =>
    rw [List.foldl_cons, ih, erase, List.filter_filter]
    refine List.filter_congr fun a _ => ?_
    rw [List.contains_cons, Bool.not_or, Bool.and_comm]
    rfl

theorem names_foldl_insert (h : (l.map Attribute.name).Nodup) :
    (l.foldl insert m).names =
      m.names ++ (l.map Attribute.name).filter fun n => !m.names.contains n := by
  induction l generalizing m with
  | nil => simp
  | cons a rest ih =>
    rw [List.map_cons, List.nodup_cons] at h
    rw [List.foldl_cons, ih h.2, names_insert, List.map_cons]
    by_cases ha : a.name ∈ m.names
    · rw [if_pos ha, List.filter_cons_of_neg (by simpa using ha)]
    · have hrest : ((rest.map Attribute.name).filter fun n => !(m.names ++ [a.name]).contains n) =
          (rest.map Attribute.name).filter fun n => !m.names.contains n := by
        refine List.filter_congr fun n hn => ?_
        have hne : n ≠ a.name := fun hna => h.1 (hna ▸ hn)
        simp [hne]
      rw [if_neg ha, hrest, List.filter_cons_of_pos (by simpa using ha), List.append_assoc]
      rfl

/-! ### Differences -/

/-- The names under which two sets have not the same value, or only one has any. -/
def differing (m k : Attributes) : List String :=
  (m.names ++ k.names).dedup.filter fun n => m.value? n != k.value? n

theorem mem_differing : n ∈ differing m k ↔ m.value? n ≠ k.value? n := by
  rw [differing, List.mem_filter, List.mem_dedup, List.mem_append, bne_iff_ne]
  refine and_iff_right_of_imp fun hne => ?_
  by_contra hnone
  rw [not_or, ← value?_eq_none_iff, ← value?_eq_none_iff] at hnone
  exact hne (hnone.1.trans hnone.2.symm)

theorem nodup_differing (m k : Attributes) : (differing m k).Nodup := (List.nodup_dedup _).filter _

theorem differing_self (m : Attributes) : differing m m = [] := by
  refine List.eq_nil_iff_forall_not_mem.mpr ?_
  intro n hn
  exact mem_differing.mp hn rfl

theorem length_differing_trans (h : ∀ n, m.value? n = k.value? n ∨ k.value? n = p.value? n) :
    (differing m p).length = (differing m k).length + (differing k p).length := by
  have hdisjoint : (differing m k ++ differing k p).Nodup := by
    refine (nodup_differing m k).append (nodup_differing k p) ?_
    intro n hn hn'
    rcases h n with heq | heq
    · exact mem_differing.mp hn heq
    · exact mem_differing.mp hn' heq
  rw [← List.length_append]
  refine List.Perm.length_eq ((List.perm_ext_iff_of_nodup (nodup_differing m p) hdisjoint).mpr ?_)
  intro n
  rw [List.mem_append, mem_differing, mem_differing, mem_differing]
  rcases h n with heq | heq
  · simp [heq]
  · simp [heq]

theorem length_differing_of_one (h : ∀ n', m.value? n' ≠ k.value? n' ↔ n' = n) :
    (differing m k).length = 1 := by
  have hperm : (differing m k).Perm [n] := by
    refine (List.perm_ext_iff_of_nodup (nodup_differing m k) (List.nodup_singleton n)).mpr ?_
    intro n'
    rw [mem_differing, h, List.mem_singleton]
  exact hperm.length_eq

theorem length_differing_insert (ha : a ∉ m.entries) : (differing m (m.insert a)).length = 1 := by
  refine length_differing_of_one (n := a.name) ?_
  intro n
  rw [value?_insert]
  by_cases hn : n = a.name
  · rw [hn, if_pos rfl]
    exact iff_of_true (fun h => ha (value?_self_iff.mp h)) rfl
  · simp [hn]

theorem length_differing_erase (h : m.has n none = true) :
    (differing m (m.erase n)).length = 1 := by
  rw [has_none_eq] at h
  refine length_differing_of_one (n := n) ?_
  intro n'
  rw [value?_erase]
  by_cases hn : n' = n
  · rw [hn, if_pos rfl]
    exact iff_of_true (Option.isSome_iff_ne_none.mp h) rfl
  · simp [hn]

/-! ### Editors -/

/-- A way to edit attributes.  It changes nothing where it changes no value, and it leaves alone
what it has edited. -/
structure Editor where
  edit : Attributes → Attributes
  eq_of_values : ∀ m, (∀ n, (edit m).value? n = m.value? n) → edit m = m
  edit_edit : ∀ m, edit (edit m) = edit m

def setter (given : List Attribute) (distinct : (given.map Attribute.name).Nodup) : Editor where
  edit m := given.foldl insert m
  eq_of_values m h := by
    refine foldl_insert_of_subset ?_
    intro a ha
    rw [← value?_self_iff, ← h]
    exact value?_foldl_insert_of_mem distinct ha
  edit_edit m := foldl_insert_of_subset fun a ha => mem_foldl_insert distinct ha

def eraser (listed : List String) : Editor where
  edit m := listed.foldl erase m
  eq_of_values m h := by
    refine foldl_erase_of_none ?_
    intro n hn
    rw [← h, value?_foldl_erase, if_pos hn]
  edit_edit m := by
    refine foldl_erase_of_none ?_
    intro n hn
    rw [value?_foldl_erase, if_pos hn]

def filler (a : Attribute) : Editor where
  edit m := if m.has a.name none then m else m.insert a
  eq_of_values m h := by
    split
    · rfl
    · rename_i hnot
      have hvalue := h a.name
      rw [if_neg hnot, value?_insert, if_pos rfl] at hvalue
      exact insert_of_mem (value?_self_iff.mp hvalue.symm)
  edit_edit m := by
    by_cases hm : m.has a.name none = true
    · rw [if_pos hm, if_pos hm]
    · have hset : (m.insert a).has a.name none = true := by
        rw [has_none_eq, value?_insert, if_pos rfl]
        rfl
      rw [if_neg hm, if_pos hset]

end Attributes
end SvgTree
