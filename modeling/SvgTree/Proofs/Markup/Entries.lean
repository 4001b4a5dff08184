/-
The attributes of an element as entries of its raw node.

Entries are collected under the usual names of the attributes, so what is lost is known from
the names alone: each name has one entry, in the place of its first attribute and with the
value of its last.  From a usual name the key can be told again, but for the namespace of SVG,
which leaves no mark.  Two keys clash just where one stands in that namespace and what it has
for a local name is the usual name of the other.
-/
import Mathlib.Data.List.Dedup
import Mathlib.Data.List.Induction
import SvgTree.Proofs.Markup.Drafting
import SvgTree.Proofs.Rule.Reading

namespace SvgTree

/-! ### Collecting texts -/

def firstNames (names : List String) : List String := names.reverse.dedup.reverse

def lastValue (pairs : List (String × String)) (name : String) : String :=
  (pairs.reverse.lookup name).getD ""

/-- Each name in its first place with its last value. -/
def settled (pairs : List (String × String)) : List (String × String) :=
  (firstNames (pairs.map Prod.fst)).map fun n => (n, lastValue pairs n)

section Settled

variable {pairs : List (String × String)} {names : List String} {n v : String}

theorem firstNames_snoc (names : List String) (n : String) :
    firstNames (names ++ [n]) =
      if n ∈ firstNames names then firstNames names else firstNames names ++ [n] := by
  have hmem : n ∈ firstNames names ↔ n ∈ names.reverse := by
    rw [firstNames, List.mem_reverse, List.mem_dedup]
  simp only [hmem]
  rw [firstNames, List.reverse_append, List.reverse_singleton, List.singleton_append]
  split
  · rename_i h
    rw [List.dedup_cons_of_mem h, firstNames]
  · rename_i h
    rw [List.dedup_cons_of_notMem h, List.reverse_cons, firstNames]

theorem nodup_firstNames (names : List String) : (firstNames names).Nodup :=
  List.nodup_reverse.mpr (List.nodup_dedup _)

theorem firstNames_of_nodup (h : names.Nodup) : firstNames names = names := by
  rw [firstNames, List.dedup_eq_self.mpr (List.nodup_reverse.mpr h), List.reverse_reverse]

theorem length_firstNames_eq_iff : (firstNames names).length = names.length ↔ names.Nodup := by
  rw [firstNames, List.length_reverse, ← names.length_reverse, ← List.nodup_reverse,
    ← List.dedup_eq_self]
  exact ⟨fun h => (List.dedup_sublist _).eq_of_length h, fun h => by rw [h]⟩

theorem lastValue_snoc (pairs : List (String × String)) (n v k : String) :
    lastValue (pairs ++ [(n, v)]) k = if k = n then v else lastValue pairs k := by
  rw [lastValue, List.reverse_append, List.reverse_singleton, List.singleton_append,
    List.lookup_cons]
  by_cases hk : k = n
  · rw [hk, if_pos rfl, beq_self_eq_true]
    rfl
  · rw [if_neg hk, beq_false_of_ne hk, lastValue]

theorem putEntry_named (h : names.Nodup) (f : String → String) (n v : String) :
    Value.putEntry (.text n) (.text v) (names.map fun k => Value.textEntry (k, f k)) =
      (if n ∈ names then names else names ++ [n]).map
        fun k => Value.textEntry (k, if k = n then v else f k) := by
  induction names with
  | nil => simp [Value.putEntry, Value.textEntry]
  | cons m rest ih =>
    obtain ⟨hm, hrest⟩ := List.nodup_cons.mp h
    rw [List.map_cons, Value.textEntry, Value.putEntry, Value.sameKey_text]
    by_cases hmn : m = n
    · subst hmn
      have hkeep : ∀ k ∈ rest, Value.textEntry (k, f k) =
          Value.textEntry (k, if k = m then v else f k) := fun k hk => by
        have hkm : k ≠ m := fun heq => hm (heq ▸ hk)
        rw [if_neg hkm]
      rw [if_pos (beq_self_eq_true m), if_pos List.mem_cons_self, List.map_cons, if_pos rfl,
        List.map_congr_left hkeep]
      rfl
    · rw [if_neg (by simpa using hmn), ih hrest]
      by_cases hmem : n ∈ rest
      · rw [if_pos hmem, if_pos (List.mem_cons_of_mem _ hmem), List.map_cons, if_neg hmn]
        rfl
      · rw [if_neg hmem, if_neg (by simp [hmem, Ne.symm hmn]), List.cons_append, List.map_cons,
          if_neg hmn]
        rfl

theorem collect_textEntry (pairs : List (String × String)) :
    Value.collect (pairs.map Value.textEntry) = (settled pairs).map Value.textEntry := by
  induction pairs using List.reverseRecOn with
  | nil => rfl
  | append_singleton pairs p ih =>
    obtain ⟨n, v⟩ := p
    have hvalue := funext (lastValue_snoc pairs n v)
    rw [Value.collect] at ih ⊢
    rw [List.map_append, List.foldl_append, ih]
    simp only [settled, List.map_append, List.map_cons, List.map_nil, firstNames_snoc, hvalue,
      List.map_map]
    exact putEntry_named (nodup_firstNames _) _ n v

theorem settled_of_nodup (h : (pairs.map Prod.fst).Nodup) : settled pairs = pairs := by
  have hvalue : ∀ p ∈ pairs, (p.1, lastValue pairs p.1) = p := fun p hp => by
    obtain ⟨before, after, hsplit⟩ := List.append_of_mem (List.mem_reverse.mpr hp)
    have hother : ∀ q ∈ before, (p.1 == q.1) = false := fun q hq => by
      rw [← List.nodup_reverse, ← List.map_reverse, hsplit, List.map_append, List.nodup_append] at h
      exact beq_false_of_ne fun heq => h.2.2 q.1 (List.mem_map_of_mem hq) p.1 (by simp) heq.symm
    have hlookup : pairs.reverse.lookup p.1 = some p.2 :=
      List.lookup_eq_some_iff.mpr ⟨before, after, hsplit, by simpa using hother⟩
    rw [lastValue, hlookup, Option.getD_some]
  rw [settled, firstNames_of_nodup h, List.map_map]
  exact (List.map_congr_left hvalue).trans (List.map_id _)

theorem length_settled_eq_iff :
    (settled pairs).length = pairs.length ↔ (pairs.map Prod.fst).Nodup := by
  rw [settled, List.length_map, ← length_firstNames_eq_iff, List.length_map]

theorem settled_eq_self_iff : settled pairs = pairs ↔ (pairs.map Prod.fst).Nodup :=
  ⟨fun h => length_settled_eq_iff.mp (congrArg List.length h), settled_of_nodup⟩

end Settled

namespace Markup

variable {a b name uri rest q : String} {keys : List String} {e : Element}

/-! ### Keys -/

/-- A key of an attribute: a plain name without a colon, or a name under a namespace. -/
inductive IsKey : String → Prop where
  | plain {name : String} : ':' ∉ name.toList → name.toList.head? ≠ some '{' → IsKey name
  | within {uri : String} (rest : String) : '}' ∉ uri.toList → IsKey (nameIn (some uri) rest)

/-- The key that a usual name comes from, if not one under the namespace of SVG. -/
def expand (q : String) : String :=
  if q.toList.head? = some '{' then q
  else match usualLabels.find? (·.2 == (Attribute.splitName q).1) with
    | some (uri, _) => nameIn (some uri) (Attribute.splitName q).2
    | none => q

/-- One key stands under the namespace of SVG, and its local name is the usual name of
another. -/
def Clash (keys : List String) : Prop :=
  ∃ a ∈ keys, ∃ b ∈ keys, a ≠ b ∧ a = nameIn (some svgNamespace) (usualName b)

theorem find?_usualLabels :
    ∀ p ∈ usualLabels, usualLabels.find? (·.2 == p.2) = some p := by decide

theorem usualName_of_qualify (h : qualify name = .ok q) : usualName name = q :=
  (qualify_eq_ok_iff.mp h).2.symm

theorem usualName_svg (rest : String) : usualName (nameIn (some svgNamespace) rest) = rest := by
  rw [usualName_of_qualify (qualify_nameIn (by decide) rest)]
  rfl

theorem IsKey.closed (h : IsKey name) : ClosedName name := by
  cases h with
  | plain _ hhead => exact fun h => absurd h hhead
  | within rest hu =>
    intro _
    rw [toList_nameIn]
    simp

theorem expand_of_head (hhead : name.toList.head? = some '{') : expand name = name :=
  if_pos hhead

theorem expand_plain (hcolon : ':' ∉ name.toList) : expand name = name := by
  have hlabel : (Attribute.splitName name).1 = "" := by
    rcases Attribute.splitName_spec name with ⟨hlabel, -⟩ | ⟨-, -, hname⟩
    · exact hlabel
    · refine absurd ?_ hcolon
      rw [hname]
      simp
  have hnone : usualLabels.find? (·.2 == "") = none := rfl
  rw [expand, hlabel, hnone]
  exact ite_self name

theorem expand_labelled {label : String} (hmem : (uri, label) ∈ usualLabels) (rest : String) :
    expand (labelled label rest) = nameIn (some uri) rest := by
  rw [expand, if_neg (head?_labelled hmem rest), splitName_of_mem hmem,
    find?_usualLabels _ hmem]

/-- A key can be told from its usual name, if that is known not to come from SVG. -/
theorem IsKey.cases (h : IsKey name) :
    name = nameIn (some svgNamespace) (usualName name) ∨ expand (usualName name) = name := by
  cases h with
  | plain hcolon hhead =>
    rw [usualName_of_qualify (qualify_of_head hhead)]
    exact .inr (expand_plain hcolon)
  | @within uri rest hu =>
    by_cases huri : uri = svgNamespace
    · rw [huri, usualName_svg]
      exact .inl rfl
    · rw [usualName_of_qualify (qualify_nameIn hu rest), usualForm, usualLabel?, if_neg huri]
      cases hlookup : usualLabels.lookup uri with
      | none => exact .inr (expand_of_head (by rw [toList_nameIn]; rfl))
      | some label => exact .inr (expand_labelled (mem_usualLabels hlookup) rest)

/-- Two keys have one usual name only where the namespace of SVG was dropped from one of
them. -/
theorem usualName_eq_iff (ha : IsKey a) (hb : IsKey b) :
    usualName a = usualName b ↔ a = b ∨ a = nameIn (some svgNamespace) (usualName b) ∨
      b = nameIn (some svgNamespace) (usualName a) := by
  constructor
  · intro h
    rcases ha.cases with hsvg | hexpand
    · exact .inr (.inl (h ▸ hsvg))
    · rcases hb.cases with hsvg | hother
      · exact .inr (.inr (h ▸ hsvg))
      · exact .inl (hexpand ▸ hother ▸ congrArg expand h)
  · rintro (rfl | h | h)
    · rfl
    · rw [h, usualName_svg]
    · rw [h, usualName_svg]

theorem clash_iff (hkeys : ∀ k ∈ keys, IsKey k) :
    Clash keys ↔ ∃ a ∈ keys, ∃ b ∈ keys, a ≠ b ∧ usualName a = usualName b := by
  constructor
  · rintro ⟨a, ha, b, hb, hne, heq⟩
    exact ⟨a, ha, b, hb, hne, (usualName_eq_iff (hkeys a ha) (hkeys b hb)).mpr (.inr (.inl heq))⟩
  · rintro ⟨a, ha, b, hb, hne, heq⟩
    rcases (usualName_eq_iff (hkeys a ha) (hkeys b hb)).mp heq with h | h | h
    · exact absurd h hne
    · exact ⟨a, ha, b, hb, hne, h⟩
    · exact ⟨b, hb, a, ha, Ne.symm hne, h⟩

theorem apart_iff (hkeys : ∀ k ∈ keys, IsKey k) :
    (∀ a ∈ keys, ∀ b ∈ keys, usualName a = usualName b → a = b) ↔ ¬ Clash keys := by
  rw [clash_iff hkeys]
  constructor
  · rintro h ⟨a, ha, b, hb, hne, heq⟩
    exact hne (h a ha b hb heq)
  · intro h a ha b hb heq
    exact Classical.byContradiction fun hne => h ⟨a, ha, b, hb, hne, heq⟩

/-! ### Attributes -/

def Element.usualPairs (e : Element) : List (String × String) :=
  e.attributes.map fun a => (usualName a.1, a.2)

theorem nodup_usualPairs_iff (hdistinct : (e.attributes.map Prod.fst).Nodup)
    (hkeys : ∀ k ∈ e.attributes.map Prod.fst, IsKey k) :
    (e.usualPairs.map Prod.fst).Nodup ↔ ¬ Clash (e.attributes.map Prod.fst) := by
  have hnames : e.usualPairs.map Prod.fst = (e.attributes.map Prod.fst).map usualName := by
    rw [Element.usualPairs, List.map_map, List.map_map]
    rfl
  rw [hnames, List.nodup_map_iff_inj_on hdistinct, apart_iff hkeys]

theorem attributes_plain (h : e.WellNamed) : Value.field "attributes" e.plain.lookups =
    .dict ((settled e.usualPairs).map Value.textEntry) := by
  rw [← collect_textEntry, Element.usualPairs, List.map_map]
  cases h with
  | mk _ _ _ => rfl

/-- The entries have the usual names of the attributes, each in its first place and with its
last value.  None is lost, and all stand as they were, just where no two keys clash, and
elsewhere two keys are qualified to one name. -/
theorem entries_of_attributes (hnamed : e.WellNamed)
    (hdistinct : (e.attributes.map Prod.fst).Nodup)
    (hkeys : ∀ k ∈ e.attributes.map Prod.fst, IsKey k) :
    ∃ raw, e.toRaw = .ok raw ∧
      Value.field "attributes" raw.lookups =
        .dict ((settled e.usualPairs).map Value.textEntry) ∧
      ((settled e.usualPairs).length = e.attributes.length ↔
        ¬ Clash (e.attributes.map Prod.fst)) ∧
      (settled e.usualPairs = e.usualPairs ↔ ¬ Clash (e.attributes.map Prod.fst)) ∧
      ((∀ a ∈ e.attributes.map Prod.fst, ∀ b ∈ e.attributes.map Prod.fst,
        qualify a = qualify b → a = b) ↔ ¬ Clash (e.attributes.map Prod.fst)) := by
  have hnodup := nodup_usualPairs_iff hdistinct hkeys
  have hqualify : ∀ k ∈ e.attributes.map Prod.fst, qualify k = .ok (usualName k) :=
    fun k hk => qualify_eq_ok_iff.mpr ⟨(hkeys k hk).closed, rfl⟩
  refine ⟨e.plain, toRaw_of_wellNamed hnamed, attributes_plain hnamed, ?_, ?_, ?_⟩
  · rw [← hnodup, ← length_settled_eq_iff, Element.usualPairs, List.length_map]
  · rw [← hnodup, settled_eq_self_iff]
  · rw [← apart_iff hkeys]
    refine forall₂_congr fun a ha => forall₂_congr fun b hb => ?_
    rw [hqualify a ha, hqualify b hb, Except.ok.injEq]

def linkedImage : Element :=
  .mk (some "image") [("href", "a.png"), (nameIn (some "http://www.w3.org/1999/xlink") "href", "b.png")]
    none none []

theorem entries_of_linkedImage :
    linkedImage.WellNamed ∧ (linkedImage.attributes.map Prod.fst).Nodup ∧
      (∀ k ∈ linkedImage.attributes.map Prod.fst, IsKey k) ∧
      ∃ raw, linkedImage.toRaw = .ok raw ∧
        Value.field "attributes" raw.lookups =
          .dict [(.text "href", .text "a.png"), (.text "xlink:href", .text "b.png")] := by
  have hnamed : linkedImage.WellNamed :=
    .mk (by decide) (by decide) fun c hc => absurd hc List.not_mem_nil
  have hdistinct : (linkedImage.attributes.map Prod.fst).Nodup := by decide
  have hkeys : ∀ k ∈ linkedImage.attributes.map Prod.fst, IsKey k :=
    List.forall_mem_cons.mpr ⟨.plain (by decide) (by decide),
      List.forall_mem_singleton.mpr (.within "href" (by decide))⟩
  obtain ⟨raw, hraw, hfield, -⟩ := entries_of_attributes hnamed hdistinct hkeys
  exact ⟨hnamed, hdistinct, hkeys, raw, hraw, hfield⟩

def filledTwice : Element :=
  .mk (some "rect") [("fill", "red"), (nameIn (some svgNamespace) "fill", "blue")] none none []

/-- Of the two only the place of the first and the value of the second are left. -/
theorem entries_of_filledTwice :
    (filledTwice.attributes.map Prod.fst).Nodup ∧
      (∀ k ∈ filledTwice.attributes.map Prod.fst, IsKey k) ∧
      (∀ a ∈ filledTwice.attributes, qualify a.1 = .ok "fill") ∧
      ∃ raw, filledTwice.toRaw = .ok raw ∧
        Value.field "attributes" raw.lookups = .dict [(.text "fill", .text "blue")] := by
  have hnamed : filledTwice.WellNamed :=
    .mk (by decide) (by decide) fun c hc => absurd hc List.not_mem_nil
  refine ⟨by decide, List.forall_mem_cons.mpr ⟨.plain (by decide) (by decide),
    List.forall_mem_singleton.mpr (.within "fill" (by decide))⟩, ?_,
    filledTwice.plain, toRaw_of_wellNamed hnamed, rfl⟩
  exact List.forall_mem_cons.mpr ⟨rfl, List.forall_mem_singleton.mpr rfl⟩

end Markup
end SvgTree
