import Galley.Proofs.Labels
import Galley.Proofs.Markdown.Woven
import Mathlib.Tactic

/-!
The lines of a text with labels, as the block structure sees them.

* `Places`: where the labels of marks go: one above a line at most, except in front of the text;
* `Places.getElem_pos`, `Places.getElem_top`: the lines and the labels are there;
* `Places.line`, `Places.length`: so the block structure finds the lines of the text there.
-/

namespace Galley

open Markdown

/-- The labels of marks go where they are said to be: those of the first line in front, and one at
most above each other line. -/
structure Places (table : LineTable) (ms : List Mark) (s : Labelling) : Prop where
  front : s.front = (marksOn table ms 0).length
  zero : s.above 0 = false
  above : ∀ n, 0 < n → marksOn table ms n = [] ∧ s.above n = false ∨
    ∃ m, marksOn table ms n = [m] ∧ s.above n = true ∧ s.id n = m.id

section Places

variable {table : LineTable} {ms : List Mark} {s : Labelling} {ss : List Segment} {n : Nat}
variable (h : Places table ms s)

lemma withLabels_at (hn : n < ss.length) : withLabels table ms 0 ss =
    withLabels table ms 0 (ss.take n) ++
      ((marksOn table ms n).map (Mark.labelled table) ++
        ss[n] :: withLabels table ms (n + 1) (ss.drop (n + 1))) := by
  have hlength : (ss.take n).length = n := by rw [List.length_take, Nat.min_eq_left hn.le]
  conv_lhs => rw [← List.take_append_drop n ss, withLabels_append, hlength, Nat.zero_add,
    List.drop_eq_getElem_cons hn, withLabels]

include h

lemma Places.length_marksOn (hn : 0 < n) :
    (marksOn table ms n).length = if s.above n then 1 else 0 := by
  rcases h.above n hn with ⟨hnone, habove⟩ | ⟨m, hone, habove, -⟩
  · rw [hnone, habove]
    rfl
  · rw [hone, habove]
    rfl

/-- The lines in front of a line and their labels. -/
lemma Places.length_take (hn : n < ss.length) :
    (withLabels table ms 0 (ss.take n)).length + (marksOn table ms n).length = s.pos n := by
  induction n with
  | zero =>
      rw [List.take_zero, withLabels, List.length_nil, Nat.zero_add,
        Labelling.pos_of_not_above h.zero, ← h.front]
      rfl
  | succ n ih =>
      have hlt : n < (ss.take (n + 1)).length := by
        rw [List.length_take]
        omega
      have htop := s.top_succ n
      rw [withLabels_at hlt, List.take_take, min_eq_left (Nat.le_succ n), List.drop_eq_nil_of_le (by
        rw [List.length_take]; omega), Labelling.pos, h.length_marksOn (Nat.succ_pos n), htop,
        ← ih (by omega)]
      simp [withLabels]
      omega

lemma Places.length_all (hss : ss ≠ []) : (withLabels table ms 0 ss).length = s.top ss.length := by
  obtain ⟨n, hn⟩ := Nat.exists_eq_succ_of_ne_zero (List.length_pos_iff.mpr hss).ne'
  have hlt : n < ss.length := by omega
  have hbehind : ss.drop (n + 1) = [] := List.drop_eq_nil_of_le hn.le
  rw [withLabels_at hlt, hbehind, withLabels, hn, Nat.succ_eq_add_one, s.top_succ,
    ← h.length_take hlt]
  simp only [List.length_append, List.length_map, List.length_singleton]
  omega

/-- A line is behind the lines in front of it, all their labels, and its own. -/
lemma Places.getElem_pos (hss : ss ≠ []) (n : Nat) :
    (withLabels table ms 0 ss)[s.pos n]? = ss[n]? := by
  rcases lt_or_ge n ss.length with hlt | hle
  · rw [withLabels_at hlt, ← h.length_take hlt, ← List.append_assoc, List.getElem?_append_right
      (by simp), List.getElem?_eq_getElem hlt]
    simp
  · have hover := s.top_mono hle
    have hpos := s.top_le_pos n
    rw [List.getElem?_eq_none hle, List.getElem?_eq_none (by rw [h.length_all hss]; omega)]

/-- The label of a line is behind the lines in front of it and their labels. -/
lemma Places.getElem_top {m : Mark} (hn : n < ss.length) (habove : s.above n = true)
    (hm : marksOn table ms n = [m]) :
    (withLabels table ms 0 ss)[s.top n]? = some (m.labelled table) := by
  have hlength := h.length_take hn
  rw [hm, Labelling.pos_of_above habove] at hlength
  rw [withLabels_at hn, hm, List.getElem?_append_right (by simp at hlength; omega)]
  have hzero : s.top n - (withLabels table ms 0 (ss.take n)).length = 0 := by
    simp at hlength
    omega
  rw [hzero]
  rfl

omit h in
/-- The labels of the first line are in front. -/
lemma getElem_withLabels_front (hss : ss ≠ []) {i : Nat} {m : Mark}
    (hm : (marksOn table ms 0)[i]? = some m) :
    (withLabels table ms 0 ss)[i]? = some (m.labelled table) := by
  obtain ⟨hi, -⟩ := List.getElem?_eq_some_iff.mp hm
  rw [withLabels_at (List.length_pos_iff.mpr hss), List.take_zero, withLabels, List.nil_append,
    List.getElem?_append_left (by simpa using hi), List.getElem?_map, hm]
  rfl

end Places

/-! ### Lines of pieces -/

/-- A piece is a line, unless it is the last one and blank. -/
lemma getElem?_linesOfPieces (pieces : List Text) (n : Nat) :
    (linesOfPieces pieces)[n]? = pieces[n]?.bind fun piece =>
      if n + 1 = pieces.length ∧ piece.all isBlank = true then none
      else some (Line.ofText (decide (n + 1 < pieces.length)) piece) := by
  induction pieces using linesOfPieces.induct generalizing n with
  | case1 => rfl
  | case2 last hvoid =>
      rw [linesOfPieces, if_pos hvoid]
      cases n with
      | zero => exact (if_pos ⟨rfl, hvoid⟩).symm
      | succ n => rfl
  | case3 last hfilled =>
      rw [linesOfPieces, if_neg hfilled]
      cases n with
      | zero => exact (if_neg fun h => hfilled h.2).symm
      | succ n => rfl
  | case4 piece pieces hne ih =>
      have hpos := List.length_pos_iff.mpr hne
      rw [linesOfPieces.eq_3 _ _ hne]
      cases n with
      | zero => simp [hpos, show pieces ≠ [] from hne]
      | succ n =>
          rw [List.getElem?_cons_succ, List.getElem?_cons_succ, ih, List.length_cons]
          simp

/-! ### The lines of a document with labels -/

/-- The lines of a document as the block structure sees them. -/
def documentLines (text : Text) : Lines := Lines.ofText (normalize text)

lemma documentLines_eq (text : Text) : documentLines text =
    linesOfPieces ((segments text).map fun s => s.line.map visible) := by
  rw [documentLines, Lines.ofText, splitAt_normalize]

lemma segments_ne_nil (text : Text) : segments text ≠ [] := (segments_spec text).2.ne_nil

section Document

variable {text out : Text} {ms : List Mark} {s : Labelling} {m : Mark} {n : Nat}
variable (h : Places (LineTable.ofText text) ms s)
variable (hout : segments out = withLabels (LineTable.ofText text) ms 0 (segments text))
include h hout

/-- Each line is behind the lines in front of it and the labels. -/
lemma Places.line (n : Nat) : (documentLines out)[s.pos n]? = (documentLines text)[n]? := by
  have hne := segments_ne_nil text
  have hlast : s.pos n + 1 = s.top (segments text).length ↔ n + 1 = (segments text).length := by
    rw [← s.top_succ]
    refine ⟨fun heq => ?_, fun heq => by rw [heq]⟩
    rcases lt_trichotomy (n + 1) (segments text).length with hlt | heq' | hlt
    · have := s.top_lt_top hlt
      omega
    · exact heq'
    · have := s.top_lt_top hlt
      omega
  have hbefore : s.pos n + 1 < s.top (segments text).length ↔ n + 1 < (segments text).length := by
    rw [← s.top_succ]
    exact ⟨s.lt_of_top_lt, s.top_lt_top⟩
  rw [documentLines_eq, documentLines_eq, getElem?_linesOfPieces, getElem?_linesOfPieces]
  simp only [List.getElem?_map, List.length_map, hout, h.getElem_pos hne, h.length_all hne, hlast,
    hbefore]

end Document

/-- How far to the right a text begins is a matter of the blanks in front. -/
lemma skipBlanks_takeWhile (base column : Nat) (t : Text) :
    (skipBlanks base column t).1 = (skipBlanks base column (t.takeWhile isBlank)).1 := by
  induction t generalizing column with
  | nil => rfl
  | cons c cs ih =>
      by_cases hc : isBlank c = true
      · rw [List.takeWhile_cons_of_pos hc, skipBlanks, skipBlanks]
        split_ifs
        · exact ih _
        · exact ih _
        · rfl
      · rw [List.takeWhile_cons_of_neg hc, skipBlanks, skipBlanks]
        simp only [isBlank, Bool.or_eq_true, beq_iff_eq, not_or] at hc
        rw [if_neg (by simpa using hc.2), if_neg (by simpa using hc.1)]

/-- The name of a mark is one of a label, and nothing but blanks are in front of the mark. -/
structure Mark.IsPlain (table : LineTable) (m : Mark) : Prop where
  name : ∀ c ∈ m.id, c.isAlphanum = true ∨ c = '-'
  blank : ∀ c ∈ m.indent table, isBlank c = true

/-- The line of the label of a mark, as the block structure sees it. -/
def Mark.labelLine (table : LineTable) (m : Mark) : Line :=
  Line.ofText true (m.indent table ++ Galley.labelLine m.id)

section Label

variable {table : LineTable} {m : Mark} (h : m.IsPlain table)
include h

lemma visible_labelled :
    (m.labelled table).line.map visible = m.indent table ++ labelLine m.id := by
  refine (List.map_congr_left fun c hc => ?_).trans (List.map_id _)
  have hne : c ≠ '\x00' := by
    rintro rfl
    rcases List.mem_append.mp hc with hc | hc
    · exact absurd (h.blank _ hc) (by decide)
    · exact absurd hc (notMem_labelLine h.name (by decide) (by decide))
  simp [visible, hne]

lemma takeWhile_labelled :
    (m.indent table ++ labelLine m.id).takeWhile isBlank = m.indent table := by
  obtain ⟨rest, hrest⟩ := labelLine_cons m.id
  rw [List.takeWhile_append_of_pos h.blank, hrest, List.takeWhile_cons_of_neg (by decide),
    List.append_nil]

lemma Mark.IsPlain.isLabel : IsLabel m.id (m.labelLine table) where
  name := h.name
  text := ⟨m.indent table, h.blank, rfl, congrArg List.length (takeWhile_labelled h)⟩
  ended := rfl

/-- The label is as far to the right as the blanks in front of it reach. -/
lemma Mark.IsPlain.indent : (m.labelLine table).indent = (skipBlanks 0 0 (m.indent table)).1 := by
  rw [Mark.labelLine, Line.ofText, skipBlanks_takeWhile, takeWhile_labelled h]

end Label

section Document

variable {text out : Text} {ms : List Mark} {s : Labelling} {m : Mark} {n : Nat}
variable (hout : segments out = withLabels (LineTable.ofText text) ms 0 (segments text))
include hout

omit hout in
/-- A label is a line of the document with labels. -/
lemma label_line (hm : m.IsPlain (LineTable.ofText text)) {k : Nat}
    (hk : (segments out)[k]? = some (m.labelled (LineTable.ofText text)))
    (hlt : k + 1 < (segments out).length) :
    (documentLines out)[k]? = some (m.labelLine (LineTable.ofText text)) := by
  rw [documentLines_eq, getElem?_linesOfPieces, List.getElem?_map, hk, List.length_map]
  simp only [Option.map_some, Option.bind_some, visible_labelled hm]
  rw [if_neg (by omega), decide_eq_true hlt]
  rfl

variable (h : Places (LineTable.ofText text) ms s)
include h

lemma Places.label_top (hm : m.IsPlain (LineTable.ofText text)) (hn : n < (segments text).length)
    (habove : s.above n = true) (hone : marksOn (LineTable.ofText text) ms n = [m]) :
    (documentLines out)[s.top n]? = some (m.labelLine (LineTable.ofText text)) := by
  refine label_line hm (by rw [hout, h.getElem_top hn habove hone]) ?_
  have := s.pos_lt_top hn
  rw [hout, h.length_all (segments_ne_nil text), ← Labelling.pos_of_above habove]
  exact this

lemma Places.label_front (hm : m.IsPlain (LineTable.ofText text)) {i : Nat}
    (hi : (marksOn (LineTable.ofText text) ms 0)[i]? = some m) :
    (documentLines out)[i]? = some (m.labelLine (LineTable.ofText text)) := by
  have hne := segments_ne_nil text
  refine label_line hm (by rw [hout, getElem_withLabels_front hne hi]) ?_
  have hpos := s.pos_lt_top (List.length_pos_iff.mpr hne)
  obtain ⟨hlt, -⟩ := List.getElem?_eq_some_iff.mp hi
  rw [hout, h.length_all hne]
  rw [Labelling.pos_of_not_above h.zero] at hpos
  rw [← h.front] at hlt
  have : s.top 0 = s.front := rfl
  omega

/-- There is room for the lines of the document, with their labels and those in front. -/
lemma Places.length (hplain : ∀ m ∈ ms, m.IsPlain (LineTable.ofText text))
    (hlast : s.above (documentLines text).length = false) :
    (documentLines out).length = s.top (documentLines text).length := by
  have habsent : (documentLines out)[s.pos (documentLines text).length]? = none := by
    rw [h.line hout, List.getElem?_eq_none le_rfl]
  rw [Labelling.pos_of_not_above hlast, List.getElem?_eq_none_iff] at habsent
  refine le_antisymm habsent ?_
  cases hlength : (documentLines text).length with
  | zero =>
      -- the last of the labels in front is a line
      have hfront : s.top 0 = (marksOn (LineTable.ofText text) ms 0).length := h.front
      rw [hfront]
      by_contra hover
      obtain ⟨m, hm⟩ :
          ∃ m, (marksOn (LineTable.ofText text) ms 0)[(documentLines out).length]? = some m :=
        ⟨_, List.getElem?_eq_getElem (by omega)⟩
      have hmem := (List.mem_filter.mp (List.mem_of_getElem? hm)).1
      have := h.label_front hout (hplain m hmem) hm
      simp at this
  | succ n =>
      have hpresent := h.line hout n
      rw [List.getElem?_eq_getElem (by omega : n < (documentLines text).length)] at hpresent
      obtain ⟨hlt, -⟩ := List.getElem?_eq_some_iff.mp hpresent
      rw [s.top_succ]
      exact hlt

end Document

end Galley
