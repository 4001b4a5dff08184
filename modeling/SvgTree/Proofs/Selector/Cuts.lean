/-
Where a selector is cut.

The scan that cuts a selector keeps two things: whether it is inside quotes, and how many
brackets are open.  Both are facts about the text before a place.  A quote is open after an
odd number of quotes; brackets count where an even number of quotes stands before them, and a
closing one counts only where there is one to close.  A comma parts two alternatives just
when neither is open before it.  The pieces put together with commas are the whole text, and
they meet at those commas.

Two more facts about the scan follow by the same induction.  After a text that leaves nothing
open, a comma parts it from whatever comes next.  And white space is never more than part of
the piece that it stands in, so it can be stripped before the cut as well as after it.
-/
import Mathlib.Data.List.Forall2
import SvgTree.Proofs.Text.Strip
import SvgTree.Selector.Basic

namespace SvgTree
namespace Selector

open Text (Blank stripChars)

/-! ### What a text leaves open -/

def quoteOpen (cs : List Char) : Bool := cs.count '"' % 2 == 1

/-- The characters of a text that have an even number of quotes before them. -/
def outside (cs : List Char) : List Char :=
  (List.range cs.length).filterMap fun i => if quoteOpen (cs.take i) then none else cs[i]?

def bracket (depth : Nat) (c : Char) : Nat :=
  if c = '[' then depth + 1 else if c = ']' then depth - 1 else depth

def bracketsOpen (cs : List Char) : Nat := (outside cs).foldl bracket 0

def Closed (cs : List Char) : Prop := quoteOpen cs = false ∧ bracketsOpen cs = 0

instance (cs : List Char) : Decidable (Closed cs) := inferInstanceAs (Decidable (_ ∧ _))

/-- The places of the commas before which nothing is open. -/
def partings (cs : List Char) : List Nat :=
  (List.range cs.length).filter fun i => cs[i]? = some ',' ∧ Closed (cs.take i)

def joints : List (List Char) → List Nat
  | piece :: next :: rest => piece.length :: (joints (next :: rest)).map (· + (piece.length + 1))
  | _ => []

variable {a b w before cs : List Char} {c : Char} {depth : Nat} {quoted : Bool}

theorem quoteOpen_snoc (cs : List Char) (c : Char) :
    quoteOpen (cs ++ [c]) = if c = '"' then !quoteOpen cs else quoteOpen cs := by
  unfold quoteOpen
  rw [List.count_append, List.count_singleton]
  by_cases hc : c = '"'
  · have hmod : (cs.count '"' + 1) % 2 = 1 ↔ ¬ cs.count '"' % 2 = 1 := by omega
    simp only [hc, beq_self_eq_true, if_true]
    rw [Bool.eq_iff_iff]
    simp only [beq_iff_eq, Bool.not_eq_true', beq_eq_false_iff_ne, ne_eq, hmod]
  · simp [hc]

theorem outside_snoc (cs : List Char) (c : Char) :
    outside (cs ++ [c]) = outside cs ++ if quoteOpen cs then [] else [c] := by
  have hold : (List.range cs.length).filterMap (fun i =>
      if quoteOpen ((cs ++ [c]).take i) then none else (cs ++ [c])[i]?) = outside cs := by
    refine List.filterMap_congr fun i hi => ?_
    have hlt : i < cs.length := List.mem_range.mp hi
    rw [List.take_append_of_le_length (Nat.le_of_lt hlt), List.getElem?_append_left hlt]
  rw [outside, List.length_append, List.length_singleton, List.range_succ, List.filterMap_append,
    hold]
  cases hq : quoteOpen cs <;> simp [hq]

theorem bracketsOpen_snoc (cs : List Char) (c : Char) :
    bracketsOpen (cs ++ [c]) =
      if quoteOpen cs then bracketsOpen cs else bracket (bracketsOpen cs) c := by
  rw [bracketsOpen, outside_snoc, List.foldl_append]
  cases quoteOpen cs <;> rfl

/-! ### One character of the scan -/

def depthAfter (depth : Nat) (quoted : Bool) (c : Char) : Nat :=
  if quoted then depth else bracket depth c

def quotedAfter (quoted : Bool) (c : Char) : Bool := if c = '"' then !quoted else quoted

theorem cut_comma (cs : List Char) :
    cut 0 false (',' :: cs) = ([], (cut 0 false cs).1 :: (cut 0 false cs).2) := rfl

theorem cut_cons (h : ¬ (c = ',' ∧ depth = 0 ∧ quoted = false)) (cs : List Char) :
    cut depth quoted (c :: cs) =
      (c :: (cut (depthAfter depth quoted c) (quotedAfter quoted c) cs).1,
        (cut (depthAfter depth quoted c) (quotedAfter quoted c) cs).2) := by
  have hkeep : (c == ',' && depth == 0 && !quoted) = false := by
    rw [Bool.eq_false_iff]
    intro hall
    simp only [Bool.and_eq_true, beq_iff_eq, Bool.not_eq_true'] at hall
    exact h ⟨hall.1.1, hall.1.2, hall.2⟩
  rw [cut, hkeep]
  simp only [Bool.false_eq_true, if_false, beq_iff_eq, depthAfter, bracket, quotedAfter]

def cutAfter (before cs : List Char) : List Char × List (List Char) :=
  cut (bracketsOpen before) (quoteOpen before) cs

theorem Closed.snoc_comma (h : Closed cs) : Closed (cs ++ [',']) := by
  refine ⟨by rw [quoteOpen_snoc]; exact h.1, ?_⟩
  rw [bracketsOpen_snoc, h.1, h.2]
  rfl

/-- Where nothing is open the scan goes on as it starts. -/
theorem cutAfter_closed (h : Closed before) (cs : List Char) :
    cutAfter before cs = cut 0 false cs := by
  rw [cutAfter, h.1, h.2]

theorem cutAfter_comma (h : Closed before) (cs : List Char) :
    cutAfter before (',' :: cs) =
      ([], (cutAfter (before ++ [',']) cs).1 :: (cutAfter (before ++ [',']) cs).2) := by
  rw [cutAfter_closed h, cutAfter_closed h.snoc_comma, cut_comma]

theorem cutAfter_cons (h : ¬ (c = ',' ∧ Closed before)) (cs : List Char) :
    cutAfter before (c :: cs) =
      (c :: (cutAfter (before ++ [c]) cs).1, (cutAfter (before ++ [c]) cs).2) := by
  have hkeep : ¬ (c = ',' ∧ bracketsOpen before = 0 ∧ quoteOpen before = false) :=
    fun ⟨hc, hb, hq⟩ => h ⟨hc, hq, hb⟩
  rw [cutAfter, cut_cons hkeep, cutAfter, quoteOpen_snoc, bracketsOpen_snoc]
  rfl

theorem piecesOf_eq (cs : List Char) : piecesOf cs = (cutAfter [] cs).1 :: (cutAfter [] cs).2 := rfl

/-! ### The pieces are the text, cut at its parting commas -/

theorem intercalate_cons (c : Char) (piece : List Char) (rest : List (List Char)) :
    [','].intercalate ((c :: piece) :: rest) = c :: [','].intercalate (piece :: rest) := by
  cases rest with
  | nil => simp
  | cons next rest => simp [List.intercalate_cons_cons]

theorem intercalate_cutAfter (before cs : List Char) :
    [','].intercalate ((cutAfter before cs).1 :: (cutAfter before cs).2) = cs := by
  induction cs generalizing before with
  | nil => rfl
  | cons c cs ih =>
    by_cases hcut : c = ',' ∧ Closed before
    · obtain ⟨rfl, hclosed⟩ := hcut
      rw [cutAfter_comma hclosed, List.intercalate_cons_cons, ih]
      rfl
    · rw [cutAfter_cons hcut, intercalate_cons, ih]

theorem joints_cons (c : Char) (piece : List Char) (rest : List (List Char)) :
    joints ((c :: piece) :: rest) = (joints (piece :: rest)).map (· + 1) := by
  cases rest with
  | nil => rfl
  | cons next rest =>
    simp only [joints, List.length_cons, List.map_cons, List.map_map, Function.comp_def,
      Nat.add_assoc]

def partingsAfter (before cs : List Char) : List Nat :=
  (List.range cs.length).filter fun i => cs[i]? = some ',' ∧ Closed (before ++ cs.take i)

theorem partingsAfter_cons (before cs : List Char) (c : Char) :
    partingsAfter before (c :: cs) =
      (if c = ',' ∧ Closed before then [0] else []) ++
        (partingsAfter (before ++ [c]) cs).map (· + 1) := by
  have hlater : ((List.range cs.length).map Nat.succ).filter (fun i =>
      decide ((c :: cs)[i]? = some ',' ∧ Closed (before ++ (c :: cs).take i))) =
        (partingsAfter (before ++ [c]) cs).map (· + 1) := by
    rw [List.filter_map, partingsAfter]
    simp only [Function.comp_def, Nat.succ_eq_add_one, List.getElem?_cons_succ,
      List.take_succ_cons, List.append_assoc, List.singleton_append]
    rfl
  rw [partingsAfter, List.length_cons, List.range_succ_eq_map, List.filter_cons, hlater]
  by_cases hcut : c = ',' ∧ Closed before <;> simp [hcut]

theorem joints_cutAfter (before cs : List Char) :
    joints ((cutAfter before cs).1 :: (cutAfter before cs).2) = partingsAfter before cs := by
  induction cs generalizing before with
  | nil => rfl
  | cons c cs ih =>
    rw [partingsAfter_cons]
    by_cases hcut : c = ',' ∧ Closed before
    · rw [if_pos hcut, ← ih]
      obtain ⟨rfl, hclosed⟩ := hcut
      rw [cutAfter_comma hclosed]
      rfl
    · rw [if_neg hcut, ← ih, cutAfter_cons hcut, joints_cons]
      rfl

/-- The pieces of a text are what its parting commas leave of it. -/
theorem piecesOf_spec (cs : List Char) :
    [','].intercalate (piecesOf cs) = cs ∧ joints (piecesOf cs) = partings cs := by
  rw [piecesOf_eq]
  exact ⟨intercalate_cutAfter [] cs, joints_cutAfter [] cs⟩

/-! ### A comma after a closed text -/

theorem cutAfter_append_comma (h : Closed (before ++ a)) (b : List Char) :
    cutAfter before (a ++ ',' :: b) =
      ((cutAfter before a).1, (cutAfter before a).2 ++ piecesOf b) := by
  induction a generalizing before with
  | nil =>
    rw [List.append_nil] at h
    rw [List.nil_append, cutAfter_comma h, cutAfter_closed h.snoc_comma]
    rfl
  | cons c a ih =>
    rw [List.append_cons] at h
    rw [List.cons_append]
    by_cases hcut : c = ',' ∧ Closed before
    · obtain ⟨rfl, hclosed⟩ := hcut
      rw [cutAfter_comma hclosed, cutAfter_comma hclosed, ih h]
      rfl
    · rw [cutAfter_cons hcut, cutAfter_cons hcut, ih h]

theorem piecesOf_append_comma (h : Closed a) (b : List Char) :
    piecesOf (a ++ ',' :: b) = piecesOf a ++ piecesOf b := by
  rw [piecesOf_eq, cutAfter_append_comma (by simpa using h)]
  rfl

/-! ### Texts without a cut -/

/-- The scan goes over the text without a cut, from one depth and state of quotes to
another. -/
def Passes (text : List Char) (depth : Nat) (quoted : Bool) (depth' : Nat) (quoted' : Bool) :
    Prop :=
  ∀ rest, cut depth quoted (text ++ rest) =
    (text ++ (cut depth' quoted' rest).1, (cut depth' quoted' rest).2)

namespace Passes

variable {x y : List Char} {d d' d'' : Nat} {q q' q'' : Bool}

theorem nil (d : Nat) (q : Bool) : Passes [] d q d q := fun _ => rfl

theorem append (h : Passes x d q d' q') (h' : Passes y d' q' d'' q'') :
    Passes (x ++ y) d q d'' q'' := by
  intro rest
  rw [List.append_assoc, h, h']
  simp

theorem cons (h : ¬ (c = ',' ∧ d = 0 ∧ q = false))
    (h' : Passes y (depthAfter d q c) (quotedAfter q c) d' q') : Passes (c :: y) d q d' q' := by
  intro rest
  rw [List.cons_append, cut_cons h, h']
  rfl

theorem of_idle (h : ∀ c ∈ x, ¬ (c = ',' ∧ d = 0 ∧ q = false) ∧ depthAfter d q c = d ∧
    quotedAfter q c = q) : Passes x d q d q := by
  induction x with
  | nil => exact nil d q
  | cons c x ih =>
    obtain ⟨hkeep, hd, hq⟩ := h c List.mem_cons_self
    refine cons hkeep ?_
    rw [hd, hq]
    exact ih fun c hc => h c (List.mem_cons_of_mem _ hc)

theorem of_quoted (h : '"' ∉ x) : Passes x d true d true := by
  refine of_idle fun c hc => ⟨fun hall => Bool.noConfusion hall.2.2, rfl, ?_⟩
  have hne : c ≠ '"' := fun heq => h (heq ▸ hc)
  rw [quotedAfter, if_neg hne]

theorem of_plain (h : ∀ c ∈ x, c ≠ ',' ∧ c ≠ '"' ∧ c ≠ '[' ∧ c ≠ ']') : Passes x d q d q := by
  refine of_idle fun c hc => ?_
  obtain ⟨hcomma, hquote, hopen, hclose⟩ := h c hc
  refine ⟨fun hall => hcomma hall.1, ?_, by rw [quotedAfter, if_neg hquote]⟩
  rw [depthAfter, bracket, if_neg hopen, if_neg hclose, ite_self]

theorem piecesOf_eq (h : Passes x 0 false 0 false) : piecesOf x = [x] := by
  have hend := h []
  rw [List.append_nil] at hend
  rw [piecesOf, hend]
  simp [cut]

theorem piecesOf_comma (h : Passes x 0 false 0 false) (rest : List Char) :
    piecesOf (x ++ ',' :: rest) = x :: piecesOf rest := by
  rw [piecesOf, h, cut_comma]
  simp [piecesOf]

end Passes

/-! ### White space around a selector -/

theorem passes_blank (hw : Blank w) : Passes w depth quoted depth quoted := by
  refine .of_plain fun c hc => ?_
  have hspace := hw c hc
  refine ⟨?_, ?_, ?_, ?_⟩ <;> rintro rfl <;> cases hspace

theorem cut_append_blank (hw : Blank w) (depth : Nat) (quoted : Bool) (cs : List Char) :
    List.Forall₂ (fun piece cutPiece => piece = cutPiece ∨ piece = cutPiece ++ w)
      ((cut depth quoted (cs ++ w)).1 :: (cut depth quoted (cs ++ w)).2)
      ((cut depth quoted cs).1 :: (cut depth quoted cs).2) := by
  induction cs generalizing depth quoted with
  | nil =>
    have hall : cut depth quoted (w ++ []) =
        (w ++ (cut depth quoted []).1, (cut depth quoted []).2) := passes_blank hw []
    rw [List.append_nil] at hall
    rw [List.nil_append, hall]
    exact .cons (.inr (by simp [cut])) .nil
  | cons c cs ih =>
    rw [List.cons_append]
    by_cases hcut : c = ',' ∧ depth = 0 ∧ quoted = false
    · obtain ⟨rfl, rfl, rfl⟩ := hcut
      rw [cut_comma, cut_comma]
      exact .cons (.inl rfl) (ih 0 false)
    · rw [cut_cons hcut, cut_cons hcut]
      obtain ⟨hhead, htail⟩ := List.forall₂_cons.mp (ih (depthAfter depth quoted c)
        (quotedAfter quoted c))
      refine .cons (hhead.imp (fun h => ?_) fun h => ?_) htail
      · rw [h]
      · rw [h, List.cons_append]

theorem alternativesOf_append_blank (hw : Blank w) (cs : List Char) :
    alternativesOf (cs ++ w) = alternativesOf cs := by
  have hpieces : List.Forall₂ (fun piece cutPiece => stripChars piece = stripChars cutPiece)
      (piecesOf (cs ++ w)) (piecesOf cs) := by
    refine (cut_append_blank hw 0 false cs).imp ?_
    rintro piece cutPiece (rfl | rfl)
    · rfl
    · exact Text.stripChars_append_right hw cutPiece
  exact List.forall₂_eq_eq_eq ▸
    List.forall₂_map_left_iff.mpr (List.forall₂_map_right_iff.mpr hpieces)

theorem alternativesOf_blank_append (hw : Blank w) (cs : List Char) :
    alternativesOf (w ++ cs) = alternativesOf cs := by
  rw [alternativesOf, piecesOf, passes_blank hw]
  simp only [List.map_cons, Text.stripChars_append_left hw]
  rfl

theorem alternativesOf_stripChars (cs : List Char) :
    alternativesOf (stripChars cs) = alternativesOf cs := by
  obtain ⟨w, w', hw, hw', hcs⟩ := Text.exists_padding cs
  conv_rhs => rw [hcs]
  rw [alternativesOf_blank_append hw, alternativesOf_append_blank hw']

/-! ### Pieces are not cut again -/

/-- The scan starts every piece as it starts a text, so it finds no cut in one. -/
theorem cut_cut (depth : Nat) (quoted : Bool) (cs : List Char) :
    cut depth quoted (cut depth quoted cs).1 = ((cut depth quoted cs).1, []) ∧
      ∀ piece ∈ (cut depth quoted cs).2, piecesOf piece = [piece] := by
  induction cs generalizing depth quoted with
  | nil => exact ⟨rfl, fun piece h => absurd h List.not_mem_nil⟩
  | cons c cs ih =>
    by_cases hcut : c = ',' ∧ depth = 0 ∧ quoted = false
    · obtain ⟨rfl, rfl, rfl⟩ := hcut
      obtain ⟨hfirst, hrest⟩ := ih 0 false
      rw [cut_comma]
      refine ⟨rfl, fun piece hp => ?_⟩
      rcases List.mem_cons.mp hp with rfl | hp
      · rw [piecesOf, hfirst]
      · exact hrest piece hp
    · obtain ⟨hfirst, hrest⟩ := ih (depthAfter depth quoted c) (quotedAfter quoted c)
      rw [cut_cons hcut, cut_cons hcut, hfirst]
      exact ⟨rfl, hrest⟩

theorem piecesOf_piece {piece : List Char} (h : piece ∈ piecesOf cs) :
    piecesOf piece = [piece] := by
  obtain ⟨hfirst, hrest⟩ := cut_cut 0 false cs
  rcases List.mem_cons.mp h with rfl | h
  · rw [piecesOf, hfirst]
  · exact hrest piece h

theorem alternativesOf_alternative {piece : List Char} (h : piece ∈ alternativesOf cs) :
    alternativesOf piece = [piece] := by
  obtain ⟨whole, hwhole, rfl⟩ := List.mem_map.mp h
  rw [alternativesOf_stripChars, alternativesOf, piecesOf_piece hwhole]
  rfl

end Selector
end SvgTree
