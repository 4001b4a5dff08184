/-
What a list of steps asks for, however it is spelled.

The list is looked up piece by piece, each piece stripped and made small, so spaces around the
pieces and the case of ASCII letters do not show in the names.  The word for all steps is the
exception: it is looked for before anything is stripped, and with white space around it it is
cut, stripped and refused as a name that no plugin has.  A run executes the steps whose names
some piece spells, and it is the run of these steps alone.
-/
import Mathlib.Logic.Relation
import SvgTree.Proofs.Rule.Composing
import SvgTree.Proofs.Text.Pieces
import SvgTree.Rule.Requested

namespace SvgTree
namespace Requested

open Text (IsWord Padded Parted SameLetters Spells strip lower splitOn)
open Forest (blankingRule isRequested rootedCalls wanted)

variable {s t : String} {pieces names : List String}

/-! ### Spellings -/

/-- One change of spelling: white space around the list or around one of its pieces, or another
case of ASCII letters. -/
inductive Respelled : String → String → Prop where
  | around {s t : String} : Padded s t → Respelled s t
  | piece {s t p q : String} {front back : List String} : Parted s (front ++ p :: back) →
      Parted t (front ++ q :: back) → Padded p q → Respelled s t
  | letters {s t : String} : SameLetters s.toList t.toList → Respelled s t

abbrev SameSpelling : String → String → Prop := Relation.EqvGen Respelled

def looked (piece : String) : String := lower (strip piece)

theorem map_looked_padded (h : Padded s t) :
    (splitOn ',' t).map looked = (splitOn ',' s).map looked := by
  obtain ⟨w, w', hw, hw', htext⟩ := h
  have hstrip (r : String) : (splitOn ',' r).map looked =
      ((Text.splitChars ',' r.toList).map Text.stripChars).map fun cs => lower (.ofList cs) := by
    rw [splitOn, List.map_map, List.map_map]
    refine List.map_congr_left fun piece _ => ?_
    rw [Function.comp_apply, Function.comp_apply, looked, strip, String.toList_ofList]
  rw [hstrip, hstrip, htext, Text.map_stripChars_padded hw hw']

theorem map_looked_letters (h : SameLetters s.toList t.toList) :
    (splitOn ',' s).map looked = (splitOn ',' t).map looked := by
  rw [splitOn, splitOn, List.map_map, List.map_map, ← List.forall₂_eq_eq_eq,
    List.forall₂_map_left_iff, List.forall₂_map_right_iff]
  refine h.splitChars.imp fun p q hpq => ?_
  have hsame : SameLetters (String.ofList p).toList (String.ofList q).toList := by
    rwa [String.toList_ofList, String.toList_ofList]
  exact hsame.strip.lower

theorem Respelled.map_looked (h : Respelled s t) :
    (splitOn ',' s).map looked = (splitOn ',' t).map looked := by
  cases h with
  | around h => exact (map_looked_padded h).symm
  | piece hs ht h =>
    rw [← hs.eq, ← ht.eq, List.map_append, List.map_append, List.map_cons, List.map_cons, looked,
      looked, h.strip_eq]
  | letters h => exact map_looked_letters h

theorem SameSpelling.map_looked (h : SameSpelling s t) :
    (splitOn ',' s).map looked = (splitOn ',' t).map looked := by
  induction h with
  | rel s t h => exact h.map_looked
  | refl s => rfl
  | symm s t _ ih => exact ih.symm
  | trans s t u _ _ ih ih' => exact ih.trans ih'

/-! ### Words -/

theorem isWord_all : IsWord "all" where
  plain := by decide
  lower_eq := by decide +kernel
  strip_eq := by decide +kernel

theorem isWord_name (p : Plugin) : IsWord p.name where
  plain := by cases p <;> decide +kernel
  lower_eq := by cases p <;> decide +kernel
  strip_eq := by cases p <;> decide +kernel

theorem name_ne_all (p : Plugin) : p.name ≠ "all" := by cases p <;> decide

theorem ofName?_name (p : Plugin) : Plugin.ofName? p.name = some p := by cases p <;> rfl

theorem isSome_ofName?_iff (n : String) :
    (Plugin.ofName? n).isSome = true ↔ ∃ p : Plugin, p.name = n := by
  constructor
  · intro h
    obtain ⟨p, hp⟩ := Option.isSome_iff_exists.mp h
    exact ⟨p, by simpa using List.find?_some hp⟩
  · rintro ⟨p, rfl⟩
    rw [ofName?_name]
    rfl

theorem spells_all_iff : Spells s "all" ↔ (splitOn ',' s).map looked = ["all"] := by
  constructor
  · intro ⟨bare, hpad, hsame⟩
    have hword : (splitOn ',' "all").map looked = ["all"] := by decide +kernel
    exact (map_looked_padded hpad).trans ((map_looked_letters hsame).trans hword)
  · intro h
    obtain ⟨piece, hpiece, hlooked⟩ := List.map_eq_singleton_iff.mp h
    have hjoined := (Text.parted_splitOn s).joined
    rw [hpiece] at hjoined
    have hs : piece = s := hjoined
    rw [← hs]
    exact isWord_all.spells_iff.mpr hlooked

/-! ### Reading the list -/

/-- The list is refused for the first name that no plugin has. -/
theorem readNames_eq (pieces : List String) :
    readNames pieces =
      match (pieces.map looked).find? fun n => (Plugin.ofName? n).isNone with
      | none => .ok (pieces.map looked)
      | some n => .error (.unknownStep n) := by
  induction pieces with
  | nil => rfl
  | cons piece rest ih =>
    rw [readNames, ← looked, ih, List.map_cons, List.find?_cons]
    cases Plugin.ofName? (looked piece) with
    | none => rfl
    | some p =>
      dsimp only [Option.isNone_some]
      cases (rest.map looked).find? fun n => (Plugin.ofName? n).isNone with
      | none => rfl
      | some n => rfl

theorem readNames_ok_iff :
    readNames pieces = .ok names ↔
      names = pieces.map looked ∧ ∀ n ∈ names, ∃ p : Plugin, p.name = n := by
  rw [readNames_eq]
  cases hfind : (pieces.map looked).find? fun n => (Plugin.ofName? n).isNone with
  | none =>
    have hnames : ∀ n ∈ pieces.map looked, ∃ p : Plugin, p.name = n := by
      intro n hn
      have hnone := List.find?_eq_none.mp hfind n hn
      rw [← isSome_ofName?_iff, Option.isSome_iff_ne_none]
      rwa [Option.isNone_iff_eq_none] at hnone
    constructor
    · intro h
      cases h
      exact ⟨rfl, hnames⟩
    · intro ⟨h, _⟩
      rw [h]
  | some n =>
    refine iff_of_false (fun h => by cases h) ?_
    intro ⟨h, hnames⟩
    rw [← h] at hfind
    have hnone := List.find?_some hfind
    obtain ⟨p, rfl⟩ := hnames n (List.mem_of_find?_eq_some hfind)
    rw [ofName?_name] at hnone
    cases hnone

theorem eq_map_looked_iff (hnames : ∀ n ∈ names, ∃ p : Plugin, p.name = n) :
    names = pieces.map looked ↔ List.Forall₂ Spells pieces names := by
  constructor
  · rintro rfl
    rw [List.forall₂_map_right_iff, List.forall₂_same]
    intro piece hpiece
    obtain ⟨p, hp⟩ := hnames _ (List.mem_map_of_mem hpiece)
    rw [← hp, (isWord_name p).spells_iff]
    exact hp.symm
  · intro h
    induction h with
    | nil => rfl
    | @cons piece n pieces names hspells _ ih =>
      obtain ⟨⟨p, rfl⟩, hrest⟩ := List.forall_mem_cons.mp hnames
      rw [List.map_cons, ← ih hrest, looked, (isWord_name p).spells_iff.mp hspells]

theorem parse_eq (s : String) :
    parse (some s) =
      if lower s = "all" then .ok none else (readNames (splitOn ',' s)).map some := by
  rw [parse]
  by_cases h : lower s = "all" <;> simp [h]

theorem parse_of_not_spells (h : ¬ Spells s "all") :
    parse (some s) = (readNames (splitOn ',' s)).map some := by
  rw [parse_eq, if_neg fun hlow => h (isWord_all.lower_eq_iff.mp hlow).1]

theorem parse_of_spells (h : Spells s "all") :
    parse (some s) = if strip s = s then .ok none else .error (.unknownStep "all") := by
  have hlow : lower s = "all" ↔ strip s = s := by
    rw [isWord_all.lower_eq_iff, and_iff_right h]
  rw [parse_eq, readNames_eq, spells_all_iff.mp h]
  by_cases hstrip : strip s = s
  · rw [if_pos hstrip, if_pos (hlow.mpr hstrip)]
  · rw [if_neg hstrip, if_neg (hlow.not.mpr hstrip)]
    rfl

/-- A list of names comes back just where these are names of plugins, one spelled by each
piece. -/
theorem parse_names_iff (h : Parted s pieces) :
    parse (some s) = .ok (some names) ↔
      List.Forall₂ Spells pieces names ∧ ∀ n ∈ names, ∃ p : Plugin, p.name = n := by
  have hread : (readNames pieces).map some = .ok (some names) ↔
      List.Forall₂ Spells pieces names ∧ ∀ n ∈ names, ∃ p : Plugin, p.name = n := by
    rw [← and_congr_left fun hnames => eq_map_looked_iff hnames, ← readNames_ok_iff]
    cases readNames pieces <;> simp [Except.map]
  by_cases hall : Spells s "all"
  · rw [parse_of_spells hall]
    refine iff_of_false (fun hparse => by split at hparse <;> cases hparse) ?_
    intro ⟨hspells, hnames⟩
    have hword : names = ["all"] := by
      rw [(eq_map_looked_iff hnames).mpr hspells, h.eq, spells_all_iff.mp hall]
    obtain ⟨p, hp⟩ := hnames "all" (by rw [hword]; exact List.mem_singleton_self _)
    exact absurd hp (name_ne_all p)
  · rw [parse_of_not_spells hall, ← h.eq, hread]

/-- Two spellings of a list come to the same, unless they spell the word for all steps and white
space stands around just one of them. -/
theorem parse_eq_iff (h : SameSpelling s t) :
    parse (some s) = parse (some t) ↔ (Spells s "all" → (strip s = s ↔ strip t = t)) := by
  have hboth : Spells s "all" ↔ Spells t "all" := by
    rw [spells_all_iff, spells_all_iff, h.map_looked]
  by_cases hall : Spells s "all"
  · rw [parse_of_spells hall, parse_of_spells (hboth.mp hall)]
    by_cases hs : strip s = s <;> by_cases ht : strip t = t <;> simp [hs, ht, hall]
  · have hnames : readNames (splitOn ',' s) = readNames (splitOn ',' t) := by
      rw [readNames_eq, readNames_eq, h.map_looked]
    rw [parse_of_not_spells hall, parse_of_not_spells (hboth.not.mp hall), hnames]
    exact iff_of_true rfl fun hspells => absurd hspells hall

theorem parse_none_iff : parse (some s) = .ok none ↔ Spells s "all" ∧ strip s = s := by
  rw [parse_eq]
  by_cases hlow : lower s = "all"
  · rw [if_pos hlow, ← isWord_all.lower_eq_iff]
    exact iff_of_true rfl hlow
  · rw [if_neg hlow, ← isWord_all.lower_eq_iff]
    refine iff_of_false ?_ hlow
    cases readNames (splitOn ',' s) <;> exact fun h => nomatch h

/-! ### Running what was asked for -/

theorem mem_wanted_iff {step : Step} {rule : List Step}
    (hspells : List.Forall₂ Spells pieces names)
    (hnames : ∀ n ∈ names, ∃ p : Plugin, p.name = n) :
    step ∈ wanted (some names) rule ↔
      step ∈ rule ∧ ∃ p ∈ pieces, Spells p step.plugin.name := by
  have hasked : isRequested (some names) step = true ↔ step.plugin.name ∈ names := by
    simp [isRequested]
  rw [wanted, List.mem_filter, hasked, (eq_map_looked_iff hnames).mpr hspells, List.mem_map]
  refine and_congr_right fun _ => exists_congr fun p => and_congr_right fun _ => ?_
  exact (isWord_name step.plugin).spells_iff.symm

/-- A list of steps asks for all of them when it is the word for that, with letters of either
case and no white space around it; with white space the word is refused.  It gives names when
every piece spells the name of a plugin, and then one name for each piece, in order.  Two
spellings of one list come to the same, unless they spell the word for all steps and white space
stands around just one of them.  A run with the names is the run of just those steps of the rule
whose names some piece spells, but for the notes on the others, and reports no other. -/
theorem outcome_by_spelling (s : String) :
    (parse (some s) = .ok none ↔ Spells s "all" ∧ strip s = s) ∧
    (Spells s "all" → strip s ≠ s → parse (some s) = .error (.unknownStep "all")) ∧
    (∀ t, SameSpelling s t →
      (parse (some s) = parse (some t) ↔ (Spells s "all" → (strip s = s ↔ strip t = t)))) ∧
    ∃ pieces, Parted s pieces ∧ ∀ names,
      (parse (some s) = .ok (some names) ↔
        List.Forall₂ Spells pieces names ∧ ∀ n ∈ names, ∃ p : Plugin, p.name = n) ∧
      (parse (some s) = .ok (some names) → ∀ (f : Forest) (root : NodeId) (rule : List Step),
        (∀ step, step ∈ wanted (some names) rule ↔
          step ∈ rule ∧ ∃ p ∈ pieces, Spells p step.plugin.name) ∧
        f.runRule root (wanted (some names) rule) none =
          ((f.runRule root rule (some names)).1,
            (f.runRule root rule (some names)).2.map fun report => { report with skipped := [] }) ∧
        ∀ g report, f.runRule root rule (some names) = (g, .ok report) →
          ∀ n ∈ report.executed, ∃ p ∈ pieces, Spells p n) := by
  have hparted := Text.parted_splitOn s
  refine ⟨parse_none_iff, ?_, fun t h => parse_eq_iff h, splitOn ',' s, hparted, ?_⟩
  · intro hspells hstrip
    rw [parse_of_spells hspells, if_neg hstrip]
  · intro names
    refine ⟨parse_names_iff hparted, ?_⟩
    intro hparse f root rule
    obtain ⟨hspells, hnames⟩ := (parse_names_iff hparted).mp hparse
    refine ⟨fun step => mem_wanted_iff hspells hnames, ?_, ?_⟩
    · exact Forest.runRule_wanted f root rule (some names)
    · intro g report hrun n hn
      obtain ⟨done, rest, -, hexecuted⟩ := Forest.executed_of_runRule hrun
      rw [hexecuted] at hn
      obtain ⟨step, hstep, rfl⟩ := List.mem_map.mp hn
      exact ((mem_wanted_iff hspells hnames).mp hstep).2

/-- Two names, one with a space behind it and one with capitals, are those in other letters and
with other white space.  A rule that renames and then sets attributes only sets them. -/
theorem outcome_by_spelling_of_mixed :
    SameSpelling "Set_Attributes ,default_fill" "set_attributes,\tDEFAULT_FILL" ∧
      parse (some "set_attributes,\tDEFAULT_FILL") =
        .ok (some ["set_attributes", "default_fill"]) ∧
      (∃ g report, (Forest.empty.afterAll rootedCalls).runRule 0 blankingRule
          (some ["set_attributes", "default_fill"]) = (g, .ok report) ∧
        report.executed = ["set_attributes"] ∧
        ∃ p ∈ ["Set_Attributes ", "default_fill"], Spells p "set_attributes") ∧
      Spells "ALL " "all" ∧ parse (some "ALL ") = .error (.unknownStep "all") := by
  have tight : Parted "set_attributes,DEFAULT_FILL" ["set_attributes", "DEFAULT_FILL"] :=
    ⟨by decide, by decide, rfl⟩
  have spaced : Parted "set_attributes ,DEFAULT_FILL" ["set_attributes ", "DEFAULT_FILL"] :=
    ⟨by decide, by decide, rfl⟩
  have indented : Parted "set_attributes,\tDEFAULT_FILL" ["set_attributes", "\tDEFAULT_FILL"] :=
    ⟨by decide, by decide, rfl⟩
  have behind : Padded "set_attributes" "set_attributes " :=
    ⟨[], [' '], by decide, by decide, rfl⟩
  have before : Padded "DEFAULT_FILL" "\tDEFAULT_FILL" := ⟨['\t'], [], by decide, by decide, rfl⟩
  have small : SameSpelling "Set_Attributes ,default_fill" "set_attributes ,DEFAULT_FILL" :=
    .rel _ _ (.letters (by decide))
  have first : SameSpelling "set_attributes,DEFAULT_FILL" "set_attributes ,DEFAULT_FILL" :=
    .rel _ _ (@Respelled.piece _ _ _ _ [] ["DEFAULT_FILL"] tight spaced behind)
  have second : SameSpelling "set_attributes,DEFAULT_FILL" "set_attributes,\tDEFAULT_FILL" :=
    .rel _ _ (@Respelled.piece _ _ _ _ ["set_attributes"] [] tight indented before)
  have same : SameSpelling "Set_Attributes ,default_fill" "set_attributes,\tDEFAULT_FILL" :=
    .trans _ _ _ small (.trans _ _ _ (.symm _ _ first) second)
  have read : parse (some "Set_Attributes ,default_fill") =
      .ok (some ["set_attributes", "default_fill"]) := rfl
  have plain : ¬ Spells "Set_Attributes ,default_fill" "all" := by
    intro hall
    rw [parse_of_spells hall] at read
    split at read <;> cases read
  have loud : Spells "ALL " "all" := ⟨"ALL", ⟨[], [' '], by decide, by decide, rfl⟩, by decide⟩
  have ran : ((Forest.empty.afterAll rootedCalls).runRule 0 blankingRule
      (some ["set_attributes", "default_fill"])).2.toOption.map Report.executed =
        some ["set_attributes"] := by decide +kernel
  obtain ⟨-, -, alike, pieces, parted, named⟩ := outcome_by_spelling "Set_Attributes ,default_fill"
  obtain ⟨-, refused, -⟩ := outcome_by_spelling "ALL "
  obtain ⟨-, -, reports⟩ := (named _).2 read (Forest.empty.afterAll rootedCalls) 0 blankingRule
  have cut : pieces = ["Set_Attributes ", "default_fill"] := parted.eq
  refine ⟨same, ?_, ?_, loud, refused loud (by decide +kernel)⟩
  · rw [← (alike _ same).mpr fun hall => absurd hall plain]
    exact read
  · rcases hrun : (Forest.empty.afterAll rootedCalls).runRule 0 blankingRule
      (some ["set_attributes", "default_fill"]) with ⟨g, e | report⟩
    · rw [hrun] at ran
      cases ran
    · rw [hrun] at ran
      have executed : report.executed = ["set_attributes"] := Option.some.inj ran
      refine ⟨g, report, rfl, executed, ?_⟩
      rw [← cut]
      have listed : "set_attributes" ∈ report.executed := by
        rw [executed]
        exact List.mem_singleton_self _
      exact reports g report hrun _ listed

/-- The word for all steps with white space around it is refused, in a message that lists it
among the valid ones. -/
theorem padded_all_refused :
    SameSpelling "all" " all" ∧ parse (some "all") = .ok none ∧
      parse (some " all") = .error (.unknownStep "all") ∧
      (Fault.unknownStep "all").message .none =
        "Invalid step 'all'. Valid steps: " ++ Plugin.listed ++ ", all" := by
  refine ⟨.rel _ _ (.around ⟨[' '], [], by decide, by decide, rfl⟩), rfl, rfl, rfl⟩

end Requested
end SvgTree
