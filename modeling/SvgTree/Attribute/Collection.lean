/-
The attributes of one node: one attribute to a name, in the order in which the names came
in.

Setting a name that is there keeps its place; removing a name and setting it again moves it
to the end.
-/
import SvgTree.Attribute.Basic

namespace SvgTree

/-- Attributes of distinct names, in order. -/
structure Attributes where
  entries : List Attribute
  distinct : (entries.map Attribute.name).Nodup
  deriving DecidableEq

namespace Attributes

def empty : Attributes := ⟨[], List.nodup_nil⟩

instance : Inhabited Attributes := ⟨empty⟩

def size (m : Attributes) : Nat := m.entries.length

def names (m : Attributes) : List String := m.entries.map (·.name)

def toPairs (m : Attributes) : List (String × String) := m.entries.map fun a => (a.name, a.value)

def get? (m : Attributes) (name : String) : Option Attribute :=
  m.entries.find? (·.name == name)

def has (m : Attributes) (name : String) (value : Option String) : Bool :=
  match m.get? name, value with
  | none, _ => false
  | some _, none => true
  | some a, some v => a.value == v

/-- The list with the attribute in the place of the one of its name, or at the end. -/
def place (a : Attribute) : List Attribute → List Attribute
  | [] => [a]
  | b :: rest => if b.name = a.name then a :: rest else b :: place a rest

theorem mem_map_name_place {a : Attribute} {l : List Attribute} {n : String} :
    n ∈ (place a l).map Attribute.name ↔ n = a.name ∨ n ∈ l.map Attribute.name := by
  induction l with
  | nil => simp [place]
  | cons b rest ih =>
    by_cases h : b.name = a.name
    · simp [place, h]
    · simp only [place, h, if_false, List.map_cons, List.mem_cons, ih]
      constructor <;> rintro (h | h | h) <;> simp [h]

theorem nodup_place {a : Attribute} {l : List Attribute} (h : (l.map Attribute.name).Nodup) :
    ((place a l).map Attribute.name).Nodup := by
  induction l with
  | nil => simp [place]
  | cons b rest ih =>
    simp only [List.map_cons, List.nodup_cons] at h
    by_cases hb : b.name = a.name
    · simp only [place, hb, if_true, List.map_cons, List.nodup_cons]
      exact ⟨hb ▸ h.1, h.2⟩
    · simp only [place, hb, if_false, List.map_cons, List.nodup_cons]
      refine ⟨fun hm => ?_, ih h.2⟩
      rcases mem_map_name_place.1 hm with hm | hm
      · exact hb hm
      · exact h.1 hm

def insert (m : Attributes) (a : Attribute) : Attributes :=
  ⟨place a m.entries, nodup_place m.distinct⟩

def erase (m : Attributes) (name : String) : Attributes :=
  ⟨m.entries.filter (·.name != name), m.distinct.sublist (List.filter_sublist.map _)⟩

def ofList (l : List Attribute) : Attributes := l.foldl insert empty

end Attributes
end SvgTree
