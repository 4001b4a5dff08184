/-
Text without regard to the case of ASCII letters.

Text that differs in the case of ASCII letters alone has the same lower case, also where a
capital sigma looks for letters with case around it.  Stripping such texts leaves such texts.
Backwards there are two exceptions: beyond ASCII the Kelvin sign becomes a `k`, and the capital
`i` with a dot becomes an `i` and a mark.  So text whose lower case is ASCII without a `k`
differs from it in the case of ASCII letters alone.
-/
import Mathlib
import SvgTree.Proofs.Text.Strip
import SvgTree.Text.Lower

namespace SvgTree
namespace Text

variable {c d : Char} {before before' cs ds : List Char}

/-! ### One letter -/

/-- The same character, up to the case of an ASCII letter. -/
def SameLetter (c d : Char) : Prop := c.toLower = d.toLower

instance (c d : Char) : Decidable (SameLetter c d) := inferInstanceAs (Decidable (_ = _))

theorem sameLetter_cases (h : SameLetter c d) :
    c = d ∨ (c.isAlpha = true ∧ d.isAlpha = true) := by
  have halpha : c.isAlpha = d.isAlpha := by
    rw [← Char.isAlpha_toLower_eq_isAlpha c, h, Char.isAlpha_toLower_eq_isAlpha]
  have hself {e : Char} (he : e.isAlpha = false) : e.toLower = e := by
    refine Char.toLower_eq_of_not_isUpper ?_
    rw [Char.isAlpha, Bool.or_eq_false_iff] at he
    exact Bool.eq_false_iff.mp he.1
  cases hc : c.isAlpha with
  | true => exact .inr ⟨rfl, halpha ▸ hc⟩
  | false =>
    rw [SameLetter, hself hc, hself (halpha ▸ hc)] at h
    exact .inl h

theorem isAlpha_iff :
    c.isAlpha = true ↔ (65 ≤ c.toNat ∧ c.toNat ≤ 90) ∨ (97 ≤ c.toNat ∧ c.toNat ≤ 122) := by
  simp [Char.isAlpha, Char.isUpper, Char.isLower, UInt32.le_iff_toNat_le]

/-- A property that all ASCII letters have or all lack does not tell their cases apart. -/
theorem SameLetter.congr {p : Char → Bool} {b : Bool} (hp : ∀ e : Char, e.isAlpha = true → p e = b)
    (h : SameLetter c d) : p c = p d := by
  rcases sameLetter_cases h with rfl | ⟨hc, hd⟩
  · rfl
  · rw [hp c hc, hp d hd]

theorem isSpace_of_isAlpha (h : c.isAlpha = true) : isSpace c = false := by
  have hrange := isAlpha_iff.mp h
  simp only [isSpace, Bool.or_eq_false_iff, Bool.and_eq_false_iff, decide_eq_false_iff_not,
    beq_eq_false_iff_ne]
  omega

theorem apart_of_mem_ignorableRanges : ∀ r ∈ ignorableRanges.toList,
    r.2 < 65 ∨ (90 < r.1 ∧ r.2 < 97) ∨ 122 < r.1 := by
  decide +kernel

theorem isCaseIgnorable_of_isAlpha (h : c.isAlpha = true) : isCaseIgnorable c = false := by
  have hrange := isAlpha_iff.mp h
  rw [isCaseIgnorable, inRanges, ← Array.any_toList, List.any_eq_false]
  intro r hr
  have hapart := apart_of_mem_ignorableRanges r hr
  simp only [Bool.and_eq_true, decide_eq_true_eq]
  omega

theorem isCased_of_isAlpha (h : c.isAlpha = true) : isCased c = true := by
  have hrange := isAlpha_iff.mp h
  rw [isCased, if_pos (by omega), h]

theorem lowerChar_of_isAlpha (h : c.isAlpha = true) : lowerChar c = c.toLower := by
  have hrange := isAlpha_iff.mp h
  exact if_pos (by omega)

/-! ### Whole texts -/

abbrev SameLetters (cs ds : List Char) : Prop := List.Forall₂ SameLetter cs ds

theorem SameLetters.refl (cs : List Char) : SameLetters cs cs :=
  List.forall₂_same.mpr fun _ _ => rfl

theorem SameLetters.dropWhile {p : Char → Bool} {b : Bool}
    (hp : ∀ e : Char, e.isAlpha = true → p e = b) (h : SameLetters cs ds) :
    SameLetters (cs.dropWhile p) (ds.dropWhile p) := by
  induction h with
  | nil => exact .nil
  | cons hcd hrest ih =>
    rw [List.dropWhile_cons, List.dropWhile_cons, hcd.congr hp]
    split
    · exact ih
    · exact .cons hcd hrest

theorem SameLetters.stripChars (h : SameLetters cs ds) :
    SameLetters (stripChars cs) (stripChars ds) := by
  have hspace (e : Char) : e.isAlpha = true → isSpace e = false := isSpace_of_isAlpha
  have hfront := List.forall₂_reverse_iff.mpr (h.dropWhile hspace)
  exact List.forall₂_reverse_iff.mpr (SameLetters.dropWhile hspace hfront)

theorem SameLetters.strip {s t : String} (h : SameLetters s.toList t.toList) :
    SameLetters (strip s).toList (strip t).toList := by
  rw [Text.strip, Text.strip, String.toList_ofList, String.toList_ofList]
  exact h.stripChars

theorem SameLetters.meetsCased (h : SameLetters cs ds) : meetsCased cs = meetsCased ds := by
  have hdrop := h.dropWhile (p := isCaseIgnorable) fun e => isCaseIgnorable_of_isAlpha
  unfold Text.meetsCased
  generalize cs.dropWhile isCaseIgnorable = left at hdrop ⊢
  generalize ds.dropWhile isCaseIgnorable = right at hdrop ⊢
  cases hdrop with
  | nil => rfl
  | cons hcd _ => exact hcd.congr fun e => isCased_of_isAlpha

/-! ### Lower case -/

theorem lowerChars_cons (hdotted : c ≠ 'İ') (hsigma : c ≠ 'Σ') (before cs : List Char) :
    lowerChars before (c :: cs) = lowerChar c :: lowerChars (c :: before) cs := by
  simp only [lowerChars, beq_iff_eq, hdotted, hsigma, if_false]
  rfl

theorem lowerChars_cons_of_isAlpha (h : c.isAlpha = true) (before cs : List Char) :
    lowerChars before (c :: cs) = c.toLower :: lowerChars (c :: before) cs := by
  have hne {e : Char} (he : e.isAlpha = false) : c ≠ e := by
    rintro rfl
    rw [he] at h
    cases h
  rw [lowerChars_cons (hne rfl) (hne rfl), lowerChar_of_isAlpha h]

/-- The induction is on the text, with what stands before it as far as case goes. -/
theorem SameLetters.lowerChars (h : SameLetters cs ds) (hb : SameLetters before before') :
    lowerChars before cs = lowerChars before' ds := by
  induction h generalizing before before' with
  | nil => rfl
  | @cons c d cs ds hcd hrest ih =>
    have hnext := ih (.cons hcd hb)
    rcases sameLetter_cases hcd with rfl | ⟨hc, hd⟩
    · have hlow : lowerSigma before cs = lowerSigma before' ds := by
        rw [lowerSigma, lowerSigma, hb.meetsCased, SameLetters.meetsCased hrest]
      simp only [Text.lowerChars, hlow, hnext]
    · rw [lowerChars_cons_of_isAlpha hc, lowerChars_cons_of_isAlpha hd, hnext, hcd]

theorem SameLetters.lower {s t : String} (h : SameLetters s.toList t.toList) : lower s = lower t :=
  congrArg String.ofList (h.lowerChars (.refl []))

theorem shift_of_mem_caseRuns : ∀ r ∈ caseRuns.toList,
    (0x80 ≤ r.first + r.shift ∧ r.last + r.shift < 0xD800) ∨
      (0xE000 ≤ r.first + r.shift ∧ r.last + r.shift < 0x110000) ∨
      (r.first + r.shift = 0x6B ∧ r.last + r.shift = 0x6B) := by
  decide +kernel

theorem lowerChar_of_le (h : 128 ≤ c.toNat) : 128 ≤ (lowerChar c).toNat ∨ lowerChar c = 'k' := by
  rw [lowerChar, if_neg (by omega)]
  cases hfind : caseRuns.find? (·.holds c.toNat) with
  | none => exact .inl h
  | some r =>
    have hholds := Array.find?_some hfind
    have hrun := shift_of_mem_caseRuns r (Array.mem_of_find?_eq_some hfind).val
    simp only [CaseRun.holds, Bool.and_eq_true, decide_eq_true_eq] at hholds
    by_cases hk : (c.toNat + r.shift).toNat = 0x6B
    · exact .inr (congrArg Char.ofNat hk)
    · have hvalid : (c.toNat + r.shift).toNat.isValidChar := by
        show _ ∨ (_ ∧ _)
        omega
      refine .inl ?_
      show 128 ≤ (Char.ofNat (c.toNat + r.shift).toNat).toNat
      rw [Char.toNat_ofNat, if_pos hvalid]
      omega

theorem sameLetter_lowerChar (hlt : (lowerChar c).toNat < 128) (hk : lowerChar c ≠ 'k') :
    SameLetter c (lowerChar c) := by
  by_cases hc : c.toNat < 128
  · have hlow : lowerChar c = c.toLower := if_pos hc
    rw [hlow]
    exact (Char.toLower_toLower_eq_toLower c).symm
  · rcases lowerChar_of_le (Nat.le_of_not_lt hc) with h | h
    · omega
    · exact absurd h hk

def Plain (cs : List Char) : Prop := ∀ c ∈ cs, c.toNat < 128 ∧ c ≠ 'k'

instance (cs : List Char) : Decidable (Plain cs) :=
  decidable_of_iff (cs.all fun c => c.toNat < 128 && c != 'k') (by simp [Plain])

theorem sameLetters_lowerChars (cs before : List Char) (h : Plain (lowerChars before cs)) :
    SameLetters cs (lowerChars before cs) := by
  induction cs generalizing before with
  | nil => exact .nil
  | cons c cs ih =>
    by_cases hdotted : c = 'İ'
    · subst hdotted
      have hmark : Char.ofNat 0x307 ∈ lowerChars before ('İ' :: cs) := by simp [lowerChars]
      exact absurd (h _ hmark).1 (by decide)
    · by_cases hsigma : c = 'Σ'
      · subst hsigma
        have hmem : lowerSigma before cs ∈ lowerChars before ('Σ' :: cs) := by simp [lowerChars]
        have hlt := (h _ hmem).1
        rw [lowerSigma] at hlt
        split at hlt <;> exact absurd hlt (by decide)
      · rw [lowerChars_cons hdotted hsigma] at h ⊢
        obtain ⟨hlt, hk⟩ := h _ List.mem_cons_self
        exact .cons (sameLetter_lowerChar hlt hk)
          (ih _ fun d hd => h d (List.mem_cons_of_mem _ hd))

/-! ### White space around a text -/

/-- The second text is the first one with white space around it. -/
def Padded (s t : String) : Prop :=
  ∃ w w', Blank w ∧ Blank w' ∧ t.toList = w ++ (s.toList ++ w')

theorem Padded.strip_eq {s t : String} (h : Padded s t) : strip t = strip s := by
  obtain ⟨w, w', hw, hw', htext⟩ := h
  rw [strip, htext, stripChars_append_left hw, stripChars_append_right hw', strip]

theorem padded_strip (s : String) : Padded (strip s) s := by
  obtain ⟨w, w', hw, hw', htext⟩ := exists_padding s.toList
  refine ⟨w, w', hw, hw', ?_⟩
  rw [strip, String.toList_ofList]
  exact htext

/-- The first text is the second one, but for white space around it and the case of ASCII
letters. -/
def Spells (s word : String) : Prop :=
  ∃ bare : String, Padded bare s ∧ SameLetters bare.toList word.toList

/-- Text in lower case, with no white space around it, that is ASCII and has no `k`. -/
structure IsWord (word : String) : Prop where
  plain : Plain word.toList
  lower_eq : lower word = word
  strip_eq : strip word = word

theorem IsWord.sameLetters {s word : String} (h : IsWord word) (hlow : lower s = word) :
    SameLetters s.toList word.toList := by
  have htext : lowerChars [] s.toList = word.toList := by
    rw [← hlow, lower, String.toList_ofList]
  have hsame := sameLetters_lowerChars s.toList []
  rw [htext] at hsame
  exact hsame h.plain

/-- A word is recognised by stripping a text and making it small. -/
theorem IsWord.spells_iff {s word : String} (h : IsWord word) :
    Spells s word ↔ lower (strip s) = word := by
  constructor
  · intro ⟨bare, hpad, hsame⟩
    rw [hpad.strip_eq, hsame.strip.lower, h.strip_eq, h.lower_eq]
  · intro hlow
    exact ⟨strip s, padded_strip s, h.sameLetters hlow⟩

/-- Text with the letters of a word has no white space around it: stripping keeps its length,
as it keeps that of the word. -/
theorem IsWord.strip_of_sameLetters {s word : String} (h : IsWord word)
    (hsame : SameLetters s.toList word.toList) : strip s = s := by
  obtain ⟨w, w', -, -, htext⟩ := exists_padding s.toList
  have hword : stripChars word.toList = word.toList := by
    rw [← String.toList_ofList (l := stripChars word.toList)]
    exact congrArg String.toList h.strip_eq
  have hlength : (stripChars s.toList).length = s.toList.length := by
    rw [hsame.stripChars.length_eq, hword, hsame.length_eq]
  have hsum := congrArg List.length htext
  rw [List.length_append, List.length_append] at hsum
  have hw : w = [] := List.length_eq_zero_iff.mp (by omega)
  have hw' : w' = [] := List.length_eq_zero_iff.mp (by omega)
  rw [hw, hw', List.nil_append, List.append_nil] at htext
  rw [strip, ← htext, String.ofList_toList]

theorem IsWord.lower_eq_iff {s word : String} (h : IsWord word) :
    lower s = word ↔ Spells s word ∧ strip s = s := by
  constructor
  · intro hlow
    have hstrip := h.strip_of_sameLetters (h.sameLetters hlow)
    refine ⟨h.spells_iff.mpr ?_, hstrip⟩
    rw [hstrip, hlow]
  · intro ⟨hspells, hstrip⟩
    rw [← hstrip]
    exact h.spells_iff.mp hspells

end Text
end SvgTree
