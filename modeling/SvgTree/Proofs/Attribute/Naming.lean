/-
How a name is split.

The label of a name is what stands before its first colon, unless that is nothing or there is
no colon; the local part is all the rest.  Put together again they are the name, so the split
loses nothing.
-/
import Mathlib.Data.List.TakeWhile
import SvgTree.Attribute.Basic

namespace SvgTree
namespace Attribute

variable {cs : List Char} {name : String}

/-- Either nothing is split off, where no colon can part the name, or all before the first
colon is. -/
theorem splitChars_cases (cs : List Char) :
    (splitChars cs = ([], cs) ∧ (':' ∉ cs ∨ cs.head? = some ':')) ∨
      ∃ label rest, splitChars cs = (label, rest) ∧ label ≠ [] ∧ ':' ∉ label ∧
        cs = label ++ ':' :: rest := by
  have hjoin := List.takeWhile_append_dropWhile (p := (· != ':')) (l := cs)
  have hlabel : ':' ∉ cs.takeWhile (· != ':') := fun hmem => by
    simpa using List.mem_takeWhile_imp hmem
  cases hdrop : cs.dropWhile (· != ':') with
  | nil =>
    rw [hdrop, List.append_nil] at hjoin
    rw [hjoin] at hlabel
    refine .inl ⟨?_, .inl hlabel⟩
    simp only [splitChars, hdrop]
  | cons c rest =>
    have hc : c = ':' := by
      have hhead := List.head?_dropWhile_not (· != ':') cs
      rw [hdrop] at hhead
      simpa using hhead
    rw [hdrop, hc] at hjoin
    by_cases hempty : cs.takeWhile (· != ':') = []
    · refine .inl ⟨?_, .inr ?_⟩
      · simp only [splitChars, hdrop, hempty]
        rfl
      · rw [← hjoin, hempty]
        rfl
    · refine .inr ⟨cs.takeWhile (· != ':'), rest, ?_, hempty, hlabel, hjoin.symm⟩
      simp only [splitChars, hdrop]
      exact if_neg fun h => hempty (List.isEmpty_iff.mp h)

/-- A label and a local part are the name split at its first colon; with no colon, or with
nothing before it, there is no label. -/
def SplitsAtColon (name label rest : String) : Prop :=
  (label = "" ∧ rest = name ∧ (':' ∉ name.toList ∨ name.toList.head? = some ':')) ∨
    (label ≠ "" ∧ ':' ∉ label.toList ∧ name = label ++ ":" ++ rest)

theorem splitName_spec (name : String) :
    SplitsAtColon name (splitName name).1 (splitName name).2 := by
  rcases splitChars_cases name.toList with ⟨heq, hcolon⟩ | ⟨label, rest, heq, hne, hno, hname⟩
  · refine .inl ⟨?_, ?_, hcolon⟩
    · rw [splitName, heq]
    · simp only [splitName, heq, String.ofList_toList]
  · refine .inr ⟨?_, ?_, ?_⟩
    · rw [splitName, heq, Ne, ← String.toList_eq_nil_iff, String.toList_ofList]
      exact hne
    · rw [splitName, heq, String.toList_ofList]
      exact hno
    · rw [splitName, heq, ← String.toList_inj, hname]
      simp

/-- The split loses nothing. -/
theorem qualifiedName_eq (a : Attribute) : a.qualifiedName = a.name := by
  have hspec := splitName_spec a.name
  rw [qualifiedName]
  rcases hspec with ⟨hlabel, hrest, -⟩ | ⟨hlabel, -, hname⟩
  · rw [if_pos (by rw [label, hlabel]; rfl), localName, hrest]
  · rw [if_neg (by rwa [String.isEmpty_iff]), label, localName, ← hname]

end Attribute
end SvgTree
