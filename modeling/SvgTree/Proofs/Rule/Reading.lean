/-
What is known of a step that was read.

Reading turns every parameter into text, so a step that a rule can hold has text in every
place: a selector, a colour, a list of names, and mappings from text to text whose keys are
distinct.  A parameter that its plugin requires is there.
-/
import Mathlib.Data.List.Nodup
import SvgTree.Rule.Step

namespace SvgTree
namespace Value

def textEntry (p : String × String) : Value × Value := (.text p.1, .text p.2)

/-- A mapping from text to text, its keys distinct. -/
def IsTexts (v : Value) (pairs : List (String × String)) : Prop :=
  v = .dict (pairs.map textEntry) ∧ (pairs.map Prod.fst).Nodup

theorem sameKey_text (s t : String) : (Value.text s).sameKey (.text t) = (s == t) := rfl

theorem putEntry_text (n v : String) {pairs : List (String × String)}
    (h : (pairs.map Prod.fst).Nodup) :
    ∃ more : List (String × String),
      putEntry (.text n) (.text v) (pairs.map textEntry) = more.map textEntry ∧
      (more.map Prod.fst).Nodup ∧ ∀ k ∈ more.map Prod.fst, k = n ∨ k ∈ pairs.map Prod.fst := by
  induction pairs with
  | nil => exact ⟨[(n, v)], rfl, List.nodup_singleton n, by simp⟩
  | cons p rest ih =>
    obtain ⟨k, w⟩ := p
    rw [List.map_cons, List.nodup_cons] at h
    by_cases hk : k = n
    · subst hk
      have hput : putEntry (.text k) (.text v) (((k, w) :: rest).map textEntry) =
          ((k, v) :: rest).map textEntry := by
        simp [putEntry, textEntry, sameKey_text]
      refine ⟨(k, v) :: rest, hput, List.nodup_cons.mpr h, fun j hj => .inr hj⟩
    · obtain ⟨more, hmore, hnodup, hkeys⟩ := ih h.2
      have hput : putEntry (.text n) (.text v) (((k, w) :: rest).map textEntry) =
          ((k, w) :: more).map textEntry := by
        rw [List.map_cons, List.map_cons, ← hmore]
        simp [putEntry, textEntry, sameKey_text, hk]
      refine ⟨(k, w) :: more, hput, List.nodup_cons.mpr ⟨fun hmem => ?_, hnodup⟩, ?_⟩
      · exact (hkeys k hmem).elim hk h.1
      · intro j hj
        rcases List.mem_cons.mp hj with rfl | hj
        · exact .inr List.mem_cons_self
        · exact (hkeys j hj).imp_right (List.mem_cons_of_mem _)

end Value

open Value (textEntry IsTexts)

namespace Step

theorem exists_isTexts_asTexts (entries : List (Value × Value)) :
    ∃ pairs, IsTexts (asTexts entries) pairs := by
  -- The induction is on the entries still to come, with those put in so far as texts.
  have step : ∀ {acc : List (String × String)}, (acc.map Prod.fst).Nodup →
      ∃ pairs, IsTexts (.dict (entries.foldl
        (fun acc e => Value.putEntry (asText e.1) (asText e.2) acc) (acc.map textEntry))) pairs := by
    induction entries with
    | nil => exact fun {acc} h => ⟨acc, rfl, h⟩
    | cons e rest ih =>
      intro acc h
      obtain ⟨more, hmore, hnodup, -⟩ :=
        Value.putEntry_text (e.1.display .none) (e.2.display .none) h
      rw [List.foldl_cons, asText, asText, hmore]
      exact ih hnodup
  exact @step [] List.nodup_nil

structure Sound (step : Step) : Prop where
  selector : step.selector = .null ∨ ∃ s, step.selector = .text s
  color : ∃ c, step.color = .text c
  mapping : step.mapping = .null ∨ ∃ pairs, IsTexts step.mapping pairs
  settings : step.plugin = .setAttributes → ∃ pairs, IsTexts step.attributes pairs
  names : step.plugin ≠ .setAttributes →
    step.attributes = .null ∨ ∃ l : List String, step.attributes = .list (l.map .text)
  selector_given : "selector" ∈ step.plugin.required → step.selector ≠ .null
  mapping_given : "mapping" ∈ step.plugin.required → step.mapping ≠ .null
  attributes_given : "attributes" ∈ step.plugin.required → step.attributes ≠ .null

theorem map_asText (items : List Value) :
    items.map asText = (items.map (·.display .none)).map .text := by
  rw [List.map_map]
  rfl

theorem readMapping_spec {plugin : Plugin} {given : Option Value} {v : Value}
    (h : readMapping plugin given = .ok v) :
    (v = .null ∨ ∃ pairs, IsTexts v pairs) ∧ (given.isSome → v ≠ .null) := by
  unfold readMapping at h
  split at h
  · cases h
    exact ⟨.inl rfl, by simp⟩
  · cases h
    exact ⟨.inr (exists_isTexts_asTexts _), fun _ => by simp [asTexts]⟩
  · cases h

theorem readAttributes_spec {plugin : Plugin} {given : Option Value} {v : Value}
    (h : readAttributes plugin given = .ok v) :
    (plugin = .setAttributes → given.isSome → ∃ pairs, IsTexts v pairs) ∧
      (plugin ≠ .setAttributes → v = .null ∨ ∃ l : List String, v = .list (l.map .text)) ∧
      (given.isSome → v ≠ .null) := by
  unfold readAttributes at h
  split at h
  · cases h
    exact ⟨by simp, fun _ => .inl rfl, by simp⟩
  · split at h
    · rename_i entries hp
      cases h
      exact ⟨fun _ _ => exists_isTexts_asTexts _, fun hne => absurd hp hne,
        fun _ => by simp [asTexts]⟩
    · cases h
  · split at h
    · cases h
    · rename_i items hp
      cases h
      exact ⟨fun he => absurd he hp, fun _ => .inr ⟨_, congrArg _ (map_asText items)⟩,
        fun _ => by simp⟩
  · cases h

theorem isSome_of_missing? {plugin : Plugin} {entries : List (Value × Value)} {p : String}
    (h : missing? plugin entries = none) (hp : p ∈ plugin.required) :
    (Value.field? p entries).isSome = true := by
  have hthere := List.find?_eq_none.mp h p hp
  rwa [Bool.not_eq_true, Option.isNone_eq_false_iff] at hthere

/-- A step that was read is sound. -/
theorem sound_of_ofValue {data : Value} {step : Step} (h : Step.ofValue data = .ok step) :
    step.Sound := by
  cases data with
  | dict entries =>
    simp only [ofValue] at h
    split at h
    · cases h
    split at h
    · cases h
    rename_i plugin _
    split at h
    · cases h
    rename_i hmissing
    split at h
    · cases h
    rename_i mapping hmapping
    split at h
    · cases h
    rename_i attributes hattributes
    cases h
    obtain ⟨hmap, hmapGiven⟩ := readMapping_spec hmapping
    obtain ⟨hset, hnames, hattrGiven⟩ := readAttributes_spec hattributes
    have given : ∀ {p : String}, p ∈ plugin.required → (Value.field? p entries).isSome = true :=
      fun hp => isSome_of_missing? hmissing hp
    refine ⟨?_, ?_, hmap, fun hp => hset hp (given ?_), hnames, fun hp => ?_,
      fun hp => hmapGiven (given hp), fun hp => hattrGiven (given hp)⟩
    · cases Value.field? "selector" entries with
      | none => exact .inl rfl
      | some v => exact .inr ⟨_, rfl⟩
    · cases Value.field? "color" entries with
      | none => exact ⟨_, rfl⟩
      | some v => exact ⟨_, rfl⟩
    · have hplugin : plugin = .setAttributes := hp
      rw [hplugin]
      decide
    · obtain ⟨v, hv⟩ := Option.isSome_iff_exists.mp (given hp)
      simp [hv, asText]
  | _ => cases h

end Step

namespace Rule

theorem sound_of_readSteps {items : List Value} {rule : List Step}
    (h : readSteps items = .ok rule) : ∀ step ∈ rule, step.Sound := by
  induction items generalizing rule with
  | nil =>
    cases h
    exact fun _ hstep => absurd hstep List.not_mem_nil
  | cons v rest ih =>
    rw [readSteps] at h
    split at h
    · cases h
    rename_i first hfirst
    cases hrest : readSteps rest with
    | error e =>
      rw [hrest] at h
      cases h
    | ok others =>
      rw [hrest] at h
      cases h
      intro step hstep
      rcases List.mem_cons.mp hstep with rfl | hstep
      · exact Step.sound_of_ofValue hfirst
      · exact ih hrest step hstep

theorem sound_of_ofSection {data : Value} {rule : List Step} (h : ofSection data = .ok rule) :
    ∀ step ∈ rule, step.Sound := by
  cases data with
  | dict entries =>
    rw [ofSection] at h
    split at h
    · cases h
      exact fun _ hstep => absurd hstep List.not_mem_nil
    · exact sound_of_readSteps h
    · cases h
  | _ => cases h

end Rule
end SvgTree
