/-
A set of attributes as a history of edits.

Every call that goes through makes one change: it puts in an attribute, or drops what stands
under a name.  The changes in their order say all about the set.  An attribute is a member
when it was put in and nothing later concerns its name, and the members stand in the order in
which their names came in: a name comes in when it is put in while it is not there, and is out
again when it is dropped.  Both are kept by every change, so they hold of every history.
-/
import Mathlib.Data.List.Induction
import SvgTree.Proofs.Attribute.Insert
import SvgTree.Proofs.Attribute.Naming

namespace SvgTree
namespace Attributes

/-! ### Calls and changes -/

/-- A call that edits a set of attributes, with what it is given. -/
inductive Edit where
  | set (name value : Value)
  | put (record : Value)
  | erase (name : Value)

/-- What a call does to the attribute of one name. -/
inductive Change where
  | put (a : Attribute)
  | drop (name : String)

def Change.name : Change → String
  | put a => a.name
  | drop n => n

def apply (m : Attributes) : Change → Attributes
  | .put a => m.insert a
  | .drop n => m.erase n

namespace Edit

/-- The change that a call asks for: a visible name is set to a text, a ready attribute is put
in, or a name is dropped.  Any other call asks for none. -/
def change? : Edit → Option Change
  | set (.text n) (.text v) => (Attribute.ofTexts? n v).map .put
  | put (.attr a) => some (.put a)
  | erase (.text n) => some (.drop n)
  | _ => none

/-- What goes through: setting what makes an attribute, putting in a ready one, and dropping
whatever can be a key. -/
def Accepted : Edit → Prop
  | set name value => ∃ a : Attribute, (name, value) = a.entry
  | put record => ∃ a : Attribute, record = .attr a
  | erase name => name.isHashable = true

end Edit

def edit (m : Attributes) : Edit → Except Fault Attributes
  | .set name value => m.set name value
  | .put record => m.putRecord record
  | .erase name => m.eraseValue name

def after (m : Attributes) (e : Edit) : Attributes :=
  match m.edit e with
  | .ok k => k
  | .error _ => m

def afterAll (m : Attributes) (edits : List Edit) : Attributes := edits.foldl after m

/-- What a set starts from: nothing, a mapping from names to values, or a mapping of ready
attributes under any keys. -/
inductive Origin where
  | none
  | mapping (v : Value)
  | records (v : Value)

namespace Origin

def build : Origin → Except Fault Attributes
  | none => .ok .empty
  | mapping v => ofMapping v
  | records v => ofRecords v

/-- The calls that come to the same. -/
def edits : Origin → List Edit
  | mapping (.dict entries) => entries.map fun e => .set e.1 e.2
  | records (.dict entries) => entries.map fun e => .put e.2
  | _ => []

end Origin

def changesOf (origin : Origin) (edits : List Edit) : List Change :=
  (origin.edits ++ edits).filterMap Edit.change?

/-! ### What a history says -/

/-- The attribute was put in, and nothing later concerns its name. -/
def Stands (changes : List Change) (a : Attribute) : Prop :=
  ∃ before later, changes = before ++ .put a :: later ∧ ∀ c ∈ later, c.name ≠ a.name

/-- At this turn the name is put in while nothing stands under it, and it is not dropped
later. -/
def EntersAt (changes : List Change) (name : String) (turn : Nat) : Prop :=
  ∃ before a later, changes = before ++ .put a :: later ∧ before.length = turn ∧
    a.name = name ∧ (∀ b, Stands before b → b.name ≠ name) ∧ .drop name ∉ later

variable {m k : Attributes} {a b : Attribute} {changes : List Change} {c : Change}
  {name n v : String} {turn : Nat} {l : List Attribute} {e : Edit}

theorem not_stands_nil : ¬ Stands [] a := by
  rintro ⟨before, later, h, -⟩
  cases before <;> cases h

theorem stands_snoc :
    Stands (changes ++ [c]) a ↔ c = .put a ∨ c.name ≠ a.name ∧ Stands changes a := by
  constructor
  · rintro ⟨before, later, h, hlater⟩
    rcases List.eq_nil_or_concat later with rfl | ⟨later, d, rfl⟩
    · exact .inl (List.cons.inj (List.append_inj' h rfl).2).1
    · rw [List.concat_eq_append] at h hlater
      rw [← List.cons_append, ← List.append_assoc] at h
      obtain ⟨rfl, hd⟩ := List.append_inj' h rfl
      cases hd
      refine .inr ⟨hlater c (by simp), before, later, rfl, fun d hd => hlater d ?_⟩
      exact List.mem_append_left _ hd
  · rintro (rfl | ⟨hne, before, later, rfl, hlater⟩)
    · exact ⟨changes, [], rfl, by simp⟩
    · refine ⟨before, later ++ [c], by simp, fun d hd => ?_⟩
      rcases List.mem_append.mp hd with hd | hd
      · exact hlater d hd
      · rwa [List.mem_singleton.mp hd]

theorem EntersAt.snoc (h : EntersAt changes name turn) (hc : c ≠ .drop name) :
    EntersAt (changes ++ [c]) name turn := by
  obtain ⟨before, a, later, rfl, hturn, hname, hnot, hdrop⟩ := h
  refine ⟨before, a, later ++ [c], by simp, hturn, hname, hnot, fun hmem => ?_⟩
  rcases List.mem_append.mp hmem with hmem | hmem
  · exact hdrop hmem
  · exact hc (List.mem_singleton.mp hmem).symm

theorem entersAt_last (h : ∀ b, Stands changes b → b.name ≠ a.name) :
    EntersAt (changes ++ [.put a]) a.name changes.length :=
  ⟨changes, a, [], rfl, rfl, rfl, h, List.not_mem_nil⟩

theorem EntersAt.lt_length (h : EntersAt changes name turn) : turn < changes.length := by
  obtain ⟨before, a, later, rfl, rfl, -⟩ := h
  simp

/-! ### What a change does to a set -/

theorem mem_of_mem_place (h : b ∈ place a l) : b = a ∨ b ∈ l := by
  induction l with
  | nil => exact .inl (List.mem_singleton.mp h)
  | cons c rest ih =>
    rw [Attributes.place] at h
    split at h
    · exact (List.mem_cons.mp h).imp_right (List.mem_cons_of_mem _)
    · rcases List.mem_cons.mp h with rfl | h
      · exact .inr List.mem_cons_self
      · exact (ih h).imp_right (List.mem_cons_of_mem _)

theorem mem_insert_iff :
    b ∈ (m.insert a).entries ↔ b = a ∨ a.name ≠ b.name ∧ b ∈ m.entries := by
  constructor
  · intro h
    by_cases hname : a.name = b.name
    · exact .inl (eq_of_name (m.insert a).distinct h mem_insert_self hname.symm)
    · refine (mem_of_mem_place h).imp_right fun hb => ⟨hname, hb⟩
  · rintro (rfl | ⟨hne, hb⟩)
    · exact mem_insert_self
    · exact mem_insert_of_ne hb hne.symm

theorem mem_erase_iff : b ∈ (m.erase n).entries ↔ n ≠ b.name ∧ b ∈ m.entries := by
  simp only [erase, List.mem_filter, bne_iff_ne, and_comm, ne_comm]

theorem map_name_place_of_mem (h : a.name ∈ l.map Attribute.name) :
    (place a l).map Attribute.name = l.map Attribute.name := by
  induction l with
  | nil => cases h
  | cons b rest ih =>
    by_cases hb : b.name = a.name
    · rw [Attributes.place, if_pos hb, List.map_cons, List.map_cons, hb]
    · have hrest := (List.mem_cons.mp h).resolve_left (Ne.symm hb)
      rw [Attributes.place, if_neg hb, List.map_cons, List.map_cons, ih hrest]

theorem names_insert (m : Attributes) (a : Attribute) :
    (m.insert a).names = if a.name ∈ m.names then m.names else m.names ++ [a.name] := by
  by_cases h : a.name ∈ m.names
  · rw [if_pos h]
    exact map_name_place_of_mem h
  · have hplace : (m.insert a).entries = m.entries ++ [a] := place_of_notMem h
    rw [if_neg h, names, hplace, List.map_append]
    rfl

theorem names_erase (m : Attributes) (n : String) :
    (m.erase n).names = m.names.filter (· != n) := by
  rw [names, names, erase, List.filter_map]
  rfl

/-! ### Every history -/

/-- The set is what the changes say: its members are the attributes that stand, and its names
are in the order in which they came in. -/
structure Follows (changes : List Change) (m : Attributes) : Prop where
  members : ∀ a, a ∈ m.entries ↔ Stands changes a
  order : ∃ turn : String → Nat, (∀ n ∈ m.names, EntersAt changes n (turn n)) ∧
    m.names.Pairwise fun x y => turn x < turn y

theorem follows_nil : Follows [] .empty where
  members _ := ⟨fun h => absurd h List.not_mem_nil, fun h => absurd h not_stands_nil⟩
  order := ⟨fun _ => 0, fun _ h => absurd h List.not_mem_nil, List.Pairwise.nil⟩

theorem Follows.put (h : Follows changes m) (a : Attribute) :
    Follows (changes ++ [.put a]) (m.insert a) where
  members b := by
    rw [mem_insert_iff, stands_snoc, h.members, Change.put.injEq, eq_comm]
    rfl
  order := by
    obtain ⟨turn, henter, hsorted⟩ := h.order
    have hkeep : ∀ n, EntersAt changes n (turn n) →
        EntersAt (changes ++ [.put a]) n (turn n) := fun n hn => hn.snoc fun h => by cases h
    rw [names_insert]
    by_cases hthere : a.name ∈ m.names
    · rw [if_pos hthere]
      exact ⟨turn, fun n hn => hkeep n (henter n hn), hsorted⟩
    · rw [if_neg hthere]
      have hnew : ∀ b, Stands changes b → b.name ≠ a.name := fun b hb hname => by
        refine hthere ?_
        rw [← hname]
        exact List.mem_map_of_mem ((h.members b).mpr hb)
      have hother : ∀ n ∈ m.names, Function.update turn a.name changes.length n = turn n :=
        fun n hn => Function.update_of_ne (ne_of_mem_of_not_mem hn hthere) _ _
      refine ⟨Function.update turn a.name changes.length, fun n hn => ?_, ?_⟩
      · rcases List.mem_append.mp hn with hn | hn
        · rw [hother n hn]
          exact hkeep n (henter n hn)
        · rw [List.mem_singleton.mp hn, Function.update_self]
          exact entersAt_last hnew
      · refine List.pairwise_append.mpr ⟨?_, List.pairwise_singleton _ _, fun x hx y hy => ?_⟩
        · exact hsorted.imp_of_mem fun hx hy hlt => by rwa [hother _ hx, hother _ hy]
        · rw [List.mem_singleton.mp hy, Function.update_self, hother x hx]
          exact (henter x hx).lt_length

theorem Follows.drop (h : Follows changes m) (n : String) :
    Follows (changes ++ [.drop n]) (m.erase n) where
  members b := by
    have hdrop : Change.drop n ≠ .put b := fun h => by cases h
    rw [mem_erase_iff, stands_snoc, h.members, or_iff_right hdrop]
    rfl
  order := by
    obtain ⟨turn, henter, hsorted⟩ := h.order
    rw [names_erase]
    refine ⟨turn, fun x hx => ?_, hsorted.filter _⟩
    obtain ⟨hx, hne⟩ := List.mem_filter.mp hx
    exact (henter x hx).snoc fun h => by simp_all

theorem follows (changes : List Change) : Follows changes (changes.foldl apply .empty) := by
  induction changes using List.reverseRecOn with
  | nil => exact follows_nil
  | append_singleton changes c ih =>
    rw [List.foldl_append]
    cases c with
    | put a => exact ih.put a
    | drop n => exact ih.drop n

/-! ### Calls make changes -/

theorem after_eq (m : Attributes) (e : Edit) :
    m.after e = (e.change?.map m.apply).getD m := by
  cases e with
  | set name value =>
    cases name with
    | text n =>
      cases value with
      | text v =>
        cases hn : Text.isBlank n with
        | true => simp [after, edit, Edit.change?, Attribute.ofTexts?, hn, set_blank hn]
        | false =>
          have hset := set_visible m ⟨n, v, hn⟩
          simp only at hset
          simp [after, edit, Edit.change?, Attribute.ofTexts?, hn, hset, apply]
      | _ => cases hn : Text.isBlank n <;>
          simp [after, edit, Edit.change?, set, Attribute.ofValues, hn, Except.map]
    | _ => rfl
  | put record => cases record <;> rfl
  | erase name =>
    cases name <;> simp [after, edit, eraseValue, Edit.change?, Value.isHashable, apply]

theorem edit_ok_iff (m : Attributes) (e : Edit) : (∃ k, m.edit e = .ok k) ↔ e.Accepted := by
  cases e with
  | set name value =>
    constructor
    · rintro ⟨k, hk⟩
      obtain ⟨a, ha, -⟩ := of_set hk
      exact ⟨a, ha⟩
    · rintro ⟨a, ha⟩
      cases ha
      exact ⟨_, set_visible m a⟩
  | put record =>
    constructor
    · rintro ⟨k, hk⟩
      cases record with
      | attr a => exact ⟨a, rfl⟩
      | _ => cases hk
    · rintro ⟨a, rfl⟩
      exact ⟨_, rfl⟩
  | erase name => cases name <;> simp [edit, eraseValue, Edit.Accepted, Value.isHashable]

theorem edit_error_iff (m : Attributes) (e : Edit) :
    (∃ x, m.edit e = .error x) ↔ ¬ e.Accepted := by
  rw [← edit_ok_iff m]
  cases m.edit e <;> simp

theorem afterAll_eq (m : Attributes) (edits : List Edit) :
    m.afterAll edits = (edits.filterMap Edit.change?).foldl apply m := by
  induction edits generalizing m with
  | nil => rfl
  | cons e rest ih =>
    rw [afterAll, List.foldl_cons, after_eq, ← afterAll, ih]
    cases hc : e.change? with
    | none => rw [List.filterMap_cons_none hc]; rfl
    | some c => rw [List.filterMap_cons_some hc]; rfl

theorem change?_set_entry (a : Attribute) :
    (Edit.set a.entry.1 a.entry.2).change? = some (.put a) := by
  simp [Edit.change?, Attribute.entry, Attribute.ofTexts?, a.visible]

/-- A set that was built holds what the calls that come to the same put in. -/
theorem Origin.build_eq {origin : Origin} (h : origin.build = .ok m) :
    m = (origin.edits.filterMap Edit.change?).foldl apply .empty := by
  have hput (l : List Attribute) :
      l.foldl insert .empty = (l.map Change.put).foldl apply .empty := by
    rw [List.foldl_map]
    rfl
  cases origin with
  | none =>
    cases h
    rfl
  | mapping v =>
    cases v with
    | dict entries =>
      obtain ⟨l, rfl, rfl⟩ := of_setAll (m := .empty) h
      have hchanges : (Origin.mapping (.dict (l.map Attribute.entry))).edits.filterMap
          Edit.change? = l.map Change.put := by
        rw [Origin.edits, List.map_map, List.filterMap_map, ← List.filterMap_eq_map]
        exact List.filterMap_congr fun a _ => change?_set_entry a
      rw [hchanges, hput]
    | _ => cases h
  | records v =>
    cases v with
    | dict entries =>
      obtain ⟨l, hl, rfl⟩ := of_putAll (m := .empty) h
      have hchanges : (Origin.records (.dict entries)).edits.filterMap Edit.change? =
          l.map Change.put := by
        have hedits : (Origin.records (.dict entries)).edits =
            (entries.map Prod.snd).map Edit.put := by
          rw [List.map_map]
          rfl
        rw [hedits, hl, List.map_map, List.filterMap_map, ← List.filterMap_eq_map]
        exact List.filterMap_congr fun a _ => rfl
      rw [hchanges, hput]
    | _ => cases h

theorem follows_changesOf {origin : Origin} (h : origin.build = .ok m) (edits : List Edit) :
    Follows (changesOf origin edits) (m.afterAll edits) := by
  rw [afterAll_eq, Origin.build_eq h, changesOf, List.filterMap_append, ← List.foldl_append]
  exact follows _

/-! ### Reading a set -/

theorem mem_names_iff : n ∈ m.names ↔ ∃ a, m.get? n = some a := by
  rw [names, List.mem_map]
  exact exists_congr fun a => get?_eq_some_iff.symm

theorem entries_eq_filterMap (m : Attributes) : m.entries = m.names.filterMap m.get? := by
  have hself : m.entries.filterMap (fun a => m.get? a.name) = m.entries.filterMap some :=
    List.filterMap_congr fun a ha => get?_eq_some_iff.mpr ⟨ha, rfl⟩
  rw [names, List.filterMap_map]
  exact (hself.trans List.filterMap_some).symm

theorem toPairs_eq_filterMap (m : Attributes) :
    m.toPairs = m.names.filterMap fun n => (m.get? n).map fun a => (n, a.value) := by
  have hself : m.entries.filterMap (fun a => (m.get? a.name).map fun b => (a.name, b.value)) =
      m.entries.filterMap fun a => some (a.name, a.value) :=
    List.filterMap_congr fun a ha => by rw [get?_eq_some_iff.mpr ⟨ha, rfl⟩]; rfl
  rw [names, List.filterMap_map, toPairs, ← List.filterMap_eq_map]
  exact hself.symm

theorem has_iff_get? : m.has n (some v) = true ↔ ∃ a, m.get? n = some a ∧ a.value = v := by
  rw [has_iff]
  refine exists_congr fun a => ?_
  rw [get?_eq_some_iff, and_assoc]

/-- A set of attributes, from whatever it started and whatever calls were made on it, some of
them refused, is what its history says.  Under a name the attribute is found that was put in
last, unless the name was dropped since.  The names that are there are listed once each, in
the order in which they came in, and so are the attributes and their values.  Every attribute
has a name that is not blank and that its label and its local part make up.  A name is there
with a value just when the attribute found under it has that value.  A call fails just when it
is not accepted, and leaves the set as it was. -/
theorem last_write_stands {origin : Origin} (h : origin.build = .ok m) (edits : List Edit)
    (hk : m.afterAll edits = k) :
    (∀ n, k.getValue? (.text n) = .ok (k.get? n) ∧
      ∀ a, k.get? n = some a ↔ a.name = n ∧ Stands (changesOf origin edits) a) ∧
    (k.names.Nodup ∧ (∀ n, n ∈ k.names ↔ ∃ a, k.get? n = some a) ∧
      (∃ turn : String → Nat, (∀ n ∈ k.names, EntersAt (changesOf origin edits) n (turn n)) ∧
        k.names.Pairwise fun x y => turn x < turn y) ∧
      k.entries = k.names.filterMap k.get? ∧
      k.toPairs = k.names.filterMap fun n => (k.get? n).map fun a => (n, a.value)) ∧
    (∀ a ∈ k.entries, Text.isBlank a.name = false ∧ a.qualifiedName = a.name ∧
      Attribute.SplitsAtColon a.name a.label a.localName) ∧
    (∀ n v, ∃ found, k.hasValue (.text n) (.text v) = .ok found ∧
      (found = true ↔ ∃ a, k.get? n = some a ∧ a.value = v)) ∧
    ∀ e, ((∃ x, k.edit e = .error x) ↔ ¬ e.Accepted) ∧
      ∀ x, k.edit e = .error x → k.after e = k := by
  have hfollows := follows_changesOf h edits
  rw [hk] at hfollows
  refine ⟨fun n => ⟨rfl, fun a => ?_⟩, ⟨k.distinct, fun n => mem_names_iff, hfollows.order,
    entries_eq_filterMap k, toPairs_eq_filterMap k⟩, fun a _ => ⟨a.visible, a.qualifiedName_eq,
    Attribute.splitName_spec a.name⟩, fun n v => ⟨_, hasValue_text k n v, has_iff_get?⟩,
    fun e => ⟨edit_error_iff k e, fun x hx => ?_⟩⟩
  · rw [get?_eq_some_iff, hfollows.members, and_comm]
  · rw [after, hx]

def filledOrigin : Origin :=
  .records (.dict [(.text "x", .attr ⟨"stroke", "red", by decide⟩),
    (.text "y", .attr ⟨"points", "M0", by decide⟩)])

/-- The first name is dropped and set again, the second gets another value, and three calls are
refused. -/
def refillEdits : List Edit :=
  [.set (.text "xlink:href") (.text "#a"), .erase (.text "stroke"), .set (.text " ") (.text "v"),
    .set (.text "stroke") (.text "blue"), .put (.attr ⟨"points", "M1", by decide⟩),
    .set (.text "points") (.int 5), .erase (.list [])]

/-- The second name keeps its place with its last value, and the first has gone to the end. -/
theorem last_write_stands_of_refilled :
    ∃ m k, filledOrigin.build = .ok m ∧ m.afterAll refillEdits = k ∧
      k.names = ["points", "xlink:href", "stroke"] ∧
      Stands (changesOf filledOrigin refillEdits) ⟨"points", "M1", by decide⟩ ∧
      ¬ Stands (changesOf filledOrigin refillEdits) ⟨"stroke", "red", by decide⟩ ∧
      k.hasValue (.text "stroke") (.text "blue") = .ok true ∧
      (∃ turn : String → Nat,
        turn "points" < turn "xlink:href" ∧ turn "xlink:href" < turn "stroke") ∧
      k.after (.erase (.list [])) = k := by
  let m : Attributes :=
    (Attributes.empty.insert ⟨"stroke", "red", by decide⟩).insert ⟨"points", "M0", by decide⟩
  have hbuild : filledOrigin.build = .ok m := rfl
  have names : (m.afterAll refillEdits).names = ["points", "xlink:href", "stroke"] := by
    decide +kernel
  have points : (m.afterAll refillEdits).get? "points" = some ⟨"points", "M1", by decide⟩ := by
    decide +kernel
  have stroke : (m.afterAll refillEdits).get? "stroke" = some ⟨"stroke", "blue", by decide⟩ := by
    decide +kernel
  obtain ⟨hfound, ⟨-, -, ⟨turn, -, hturn⟩, -⟩, -, hhas, hcalls⟩ :=
    last_write_stands hbuild refillEdits rfl
  obtain ⟨found, hvalue, hiff⟩ := hhas "stroke" "blue"
  rw [hiff.mpr ⟨_, stroke, rfl⟩] at hvalue
  refine ⟨m, _, hbuild, rfl, names, (((hfound "points").2 _).mp points).2, fun hred => ?_, hvalue,
    ⟨turn, ?_⟩, (hcalls (.erase (.list []))).2 _ rfl⟩
  · have hsame := ((hfound "stroke").2 _).mpr ⟨rfl, hred⟩
    rw [stroke] at hsame
    exact absurd hsame (by decide)
  · rw [names] at hturn
    simp only [List.pairwise_cons, List.mem_cons, forall_eq_or_imp] at hturn
    exact ⟨hturn.1.1, hturn.2.1.1⟩

end Attributes
end SvgTree
