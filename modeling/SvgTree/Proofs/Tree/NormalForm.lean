/-
The normal form of a raw tree.

It is given by recursion on the raw tree: every node has its type, elements and roots have
their name unless it does not count, their attributes by name and value, and a list of
children, and every other node has its children only where there are some.  What is read from
one raw node comes out as the normal form of that node, and an export is in normal form where
its children are.
-/
import SvgTree.Proofs.Tree.RoundTrip

namespace SvgTree
namespace Value

/-! ### The recursion -/

/-- What a raw node answers when it is looked up by name.  A set of attributes in the place of
a raw node answers with its attributes. -/
def lookups : Value → List (Value × Value)
  | .dict entries => entries
  | .attrs m => m.entries.map fun a => (.text a.name, .attr a)
  | _ => []

/-- Entries by key, where a later one takes the place of an earlier one of its key. -/
def collect (entries : List (Value × Value)) : List (Value × Value) :=
  entries.foldl (fun done e => putEntry e.1 e.2 done) []

def records : Value → List (Value × Value)
  | .dict entries => entries.filterMap fun e =>
    match e.2 with
    | .attr a => some a.entry
    | _ => none
  | _ => []

/-- The attributes of a raw node by name and value: those under `attributes`, and only where
that key is missing, the ready ones under `attrs`. -/
def flatAttributes (entries : List (Value × Value)) : List (Value × Value) :=
  match field? "attributes" entries with
  | some (.dict flat) => collect flat
  | some (.attrs m) => m.entries.map Attribute.entry
  | some _ => []
  | none => collect (field "attrs" entries).records

def normalNode (entries : List (Value × Value)) (children : List Value) : Value :=
  let kind := (field "type" entries).orElse (.text "element")
  let name := field "name" entries
  let value := entry "value" (field "value" entries).given?
  if asksContainer entries then
    .dict ([(.text "type", kind)] ++ (if name.isTruthy then [(.text "name", name)] else []) ++
      [(.text "attributes", .dict (flatAttributes entries))] ++ value ++
      [(.text "children", .list children)])
  else
    .dict ([(.text "type", kind)] ++ value ++
      if children = [] then [] else [(.text "children", .list children)])

mutual

/-- The normal form of a raw tree. -/
def normal : Value → Value
  | .dict entries => normalNode entries (normalChildren entries)
  | .attrs m => normalNode (lookups (.attrs m)) []
  | v => v

def normalChildren : List (Value × Value) → List Value
  | [] => []
  | (k, v) :: rest => if k.isText "children" then normalItems v else normalChildren rest

def normalItems : Value → List Value
  | .list items => normalAll items
  | _ => []

def normalAll : List Value → List Value
  | [] => []
  | v :: rest => normal v :: normalAll rest

end

def isLabel : Value → Bool
  | .null | .text _ => true
  | _ => false

def TextTypes (v : Value) : Prop :=
  ∀ path w, v.rawAt? path = some w → (field "type" w.lookups).isLabel = true

theorem TextTypes.item {v : Value} (h : TextTypes v) {k : Nat} (hk : k < v.items.length) :
    TextTypes v.items[k] := by
  intro path w hw
  refine h (k :: path) w ?_
  rw [rawAt?, List.getElem?_eq_getElem hk]
  exact hw

theorem textTypes_of_items {v : Value} (h : (field "type" v.lookups).isLabel = true)
    (hitems : ∀ w ∈ v.items, TextTypes w) : TextTypes v := by
  intro path w hw
  cases path with
  | nil =>
    cases hw
    exact h
  | cons k path =>
    obtain ⟨u, hu, hw⟩ := Option.bind_eq_some_iff.mp hw
    exact hitems u (List.mem_of_getElem? hu) path w hw

theorem exists_text_orElse {v : Value} (h : v.isLabel = true) :
    ∃ t, v.orElse (.text "element") = .text t ∧ t ≠ "" := by
  cases v with
  | null => exact ⟨"element", rfl, by decide⟩
  | text s =>
    by_cases hs : s = ""
    · rw [hs]
      exact ⟨"element", rfl, by decide⟩
    · exact ⟨s, if_pos (by simp [isTruthy, hs]), hs⟩
  | _ => cases h

theorem normalAll_eq (l : List Value) : normalAll l = l.map normal := by
  induction l with
  | nil => rfl
  | cons v rest ih => rw [normalAll, ih, List.map_cons]

theorem normalItems_eq (v : Value) : normalItems v = v.listed.map normal := by
  cases v with
  | list l => exact normalAll_eq l
  | _ => rfl

theorem normalChildren_eq (entries : List (Value × Value)) :
    normalChildren entries = (field "children" entries).listed.map normal := by
  induction entries with
  | nil => rfl
  | cons e rest ih =>
    obtain ⟨k, v⟩ := e
    rw [normalChildren, field, field?]
    by_cases hk : k.isText "children" = true
    · rw [if_pos hk, if_pos hk]
      exact normalItems_eq v
    · rw [if_neg hk, if_neg hk, ih]
      rfl

theorem normal_dict (entries : List (Value × Value)) :
    (Value.dict entries).normal = normalNode entries ((Value.dict entries).items.map normal) := by
  rw [normal, normalChildren_eq]
  rfl

/-! ### Attributes -/

theorem putEntry_entry (a : Attribute) (l : List Attribute) :
    putEntry (.text a.name) (.text a.value) (l.map Attribute.entry) =
      (Attributes.place a l).map Attribute.entry := by
  induction l with
  | nil => rfl
  | cons b rest ih =>
    rw [List.map_cons, Attribute.entry, putEntry, Attributes.place, ih]
    by_cases hb : b.name = a.name
    · have hsame : sameKey (.text b.name) (.text a.name) = true := by simp [sameKey, number?, hb]
      rw [if_pos hsame, if_pos hb, List.map_cons, Attribute.entry, hb]
    · have hother : ¬ sameKey (.text b.name) (.text a.name) = true := by
        simp [sameKey, number?, hb]
      rw [if_neg hother, if_neg hb, List.map_cons, Attribute.entry]

theorem foldl_putEntry_entry (m : Attributes) (l : List Attribute) :
    (l.map Attribute.entry).foldl (fun done e => putEntry e.1 e.2 done)
      (m.entries.map Attribute.entry) = (l.foldl Attributes.insert m).entries.map Attribute.entry := by
  induction l generalizing m with
  | nil => rfl
  | cons a rest ih =>
    have hput : putEntry a.entry.1 a.entry.2 (m.entries.map Attribute.entry) =
        (m.insert a).entries.map Attribute.entry := putEntry_entry a m.entries
    rw [List.map_cons, List.foldl_cons, List.foldl_cons, ← ih, hput]

theorem collect_entries (l : List Attribute) :
    collect (l.map Attribute.entry) = (Attributes.ofList l).entries.map Attribute.entry :=
  foldl_putEntry_entry .empty l

theorem records_of_attr {entries : List (Value × Value)} {l : List Attribute}
    (h : entries.map Prod.snd = l.map Value.attr) :
    (Value.dict entries).records = l.map Attribute.entry := by
  induction entries generalizing l with
  | nil =>
    cases l with
    | nil => rfl
    | cons a rest => cases h
  | cons e rest ih =>
    obtain ⟨k, v⟩ := e
    cases l with
    | nil => cases h
    | cons a others =>
      rw [List.map_cons, List.map_cons, List.cons.injEq] at h
      obtain ⟨rfl, hrest⟩ := h
      exact congrArg (a.entry :: ·) (ih hrest)

end Value

open Value (field field? lookups flatAttributes normal normalNode)

namespace Fields

variable {entries : List (Value × Value)} {n : Fields}

theorem toDict_attributesOf {m : Attributes} (h : attributesOf entries = .ok m) :
    m.toDict = .dict (flatAttributes entries) := by
  rw [toDict_eq]
  unfold attributesOf at h
  unfold flatAttributes
  cases hflat : field? "attributes" entries with
  | some v =>
    rw [hflat] at h
    cases v with
    | dict flat =>
      obtain ⟨l, rfl, rfl⟩ := Attributes.of_setAll (m := .empty) h
      exact congrArg Value.dict (Value.collect_entries l).symm
    | null =>
      cases h
      rfl
    | attrs m' =>
      cases h
      rfl
    | _ => cases h
  | none =>
    rw [hflat] at h
    cases hattrs : field "attrs" entries with
    | null =>
      rw [hattrs] at h
      cases h
      rfl
    | dict ready =>
      rw [hattrs] at h
      obtain ⟨l, hl, rfl⟩ := Attributes.of_putAll (m := .empty) h
      simp only [Value.records_of_attr hl]
      exact congrArg Value.dict (Value.collect_entries l).symm
    | _ =>
      rw [hattrs] at h
      cases h

/-- The fields that are read from a raw node come out as its normal form. -/
theorem exported_eq_normalNode (h : ofEntries entries = .ok n) (cs : List Value) :
    n.exported cs = normalNode entries cs := by
  obtain ⟨hkind, hname, hvalue, hattributes⟩ := of_ofEntries h
  have hcontainer : n.isContainer = asksContainer entries := by
    rw [isContainer, hkind, asksContainer]
  have hdict := toDict_attributesOf hattributes
  rw [exported_eq, exportedEntries, exportedName, exportedAttributes, exportedItems, normalNode,
    hcontainer, hkind, hname, hvalue, hdict]
  cases hc : asksContainer entries with
  | true =>
    unfold Value.orElse
    cases ht : (field "name" entries).isTruthy with
    | true => simp [Value.entry, ht]
    | false => simp [Value.entry, Value.isTruthy]
  | false =>
    cases cs with
    | nil => simp [Value.entry]
    | cons c rest => simp [Value.entry]

theorem exported_reread (hkind : n.kind.isTruthy = true) (cs : List Value) :
    n.reread.exported cs = n.exported cs := by
  have hsame : n.reread.kind = n.kind := if_pos hkind
  have hcontainer : n.reread.isContainer = n.isContainer := by
    rw [isContainer, isContainer, hsame]
  have hname : n.reread.exportedName = n.exportedName := by
    rw [exportedName, exportedName, hcontainer, reread]
    cases n.isContainer with
    | false => rfl
    | true =>
      unfold Value.orElse
      cases ht : n.name.isTruthy with
      | true => simp [ht]
      | false => rfl
  have hattributes : n.reread.exportedAttributes = n.exportedAttributes := by
    rw [exportedAttributes, exportedAttributes, hcontainer, reread]
    cases n.isContainer <;> rfl
  have hitems : n.reread.exportedItems cs = n.exportedItems cs := by
    rw [exportedItems, exportedItems, hcontainer]
  rw [exported_eq, exported_eq, exportedEntries, exportedEntries, hsame, hname, hattributes,
    hitems]
  rfl

theorem normal_exported (hkind : n.kind.isTruthy = true) (cs : List Value) :
    (n.exported cs).normal = n.exported (cs.map normal) := by
  have hread := ofEntries_exported n cs
  rw [exported_eq, Value.normal_dict, ← exported_eq_normalNode hread, ← exported_eq,
    Forest.items_exported, exported_reread hkind]

theorem field?_lookups_attrs (m : Attributes) (name : String) :
    field? name (lookups (.attrs m)) = (m.get? name).map Value.attr := by
  rw [lookups, Attributes.get?]
  induction m.entries with
  | nil => rfl
  | cons a rest ih =>
    rw [List.map_cons, field?, List.find?_cons, ih, Value.isText]
    cases a.name == name <;> rfl

theorem ofEntries_lookups_attrs {m : Attributes} (h : ofAttributes m = .ok n) :
    ofEntries (lookups (.attrs m)) = .ok n := by
  have hfield (name : String) : field name (lookups (.attrs m)) = attributeValue m name := by
    rw [field, field?_lookups_attrs, attributeValue]
  have hmissing {name : String} (hn : m.has name none = false) : m.get? name = none := by
    unfold Attributes.has at hn
    cases hget : m.get? name with
    | none => rfl
    | some a =>
      rw [hget] at hn
      cases hn
  unfold ofAttributes at h
  split at h
  · cases h
  · rename_i hhas
    rw [Bool.or_eq_true, not_or, Bool.not_eq_true, Bool.not_eq_true] at hhas
    have hattributes : attributesOf (lookups (.attrs m)) = .ok .empty := by
      unfold attributesOf
      rw [field?_lookups_attrs, hmissing hhas.1, hfield, attributeValue, hmissing hhas.2]
      rfl
    rw [ofEntries, hattributes, hfield, hfield, hfield]
    exact h

end Fields

end SvgTree
