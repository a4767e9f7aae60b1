import Galley.Proofs.Anchors
import Galley.Proofs.Directives
import Galley.Proofs.Markdown.FirstLines
import Galley.Proofs.Weave
import Mathlib.Tactic

/-!
Setting labels keeps the lines of a text whole.

* `Mark.OnLine`: a mark on a line of the text, with nothing but blanks in front of it;
* `withLabels`: lines, each below the labels of the marks that are on it;
* `apply_mark`: the label of a mark goes in as a line above the one that the mark is on;
* `segments_marks`: so the lines of a text with labels are its own lines and those of the labels;
* `Labelled`: a text with labels, where each mark has one label and no line is changed;
* `injectAnchors_lines`: the anchors of a document are those of the offsets of its blocks, and the
  labels stand above their lines.
-/

namespace Galley

open Markdown (Block parse parse_first_lt)

/-! ### Marks on lines -/

/-- The line that sets a label, without its break. -/
def labelLine (id : Text) : Text := "<!--raw-typst #label(\"".toList ++ id ++ "\") -->".toList

/-- The number of the line that a mark is on. -/
def Mark.line (table : LineTable) (m : Mark) : Nat := (table.lineColumn m.offset).1

/-- What stands in front of an offset on its line. -/
def indentAt (table : LineTable) (offset : Nat) : Text :=
  (table.lineText (table.lineColumn offset).1).take (table.lineColumn offset).2

/-- What stands in front of a mark on its line. -/
def Mark.indent (table : LineTable) (m : Mark) : Text := indentAt table m.offset

/-- The line that is put in for a mark: its label, behind what stands in front of the mark. -/
def Mark.labelled (table : LineTable) (m : Mark) : Segment :=
  ⟨m.indent table ++ labelLine m.id, ['\n']⟩

/-- The mark is on a line of the text, with nothing but blanks in front of it. -/
structure Mark.OnLine (text : Text) (m : Mark) : Prop where
  lt : m.line (LineTable.ofText text) < (segments text).length
  offset : m.offset = (LineTable.ofText text).lineStart (m.line (LineTable.ofText text)) +
    (m.indent (LineTable.ofText text)).length
  column : ((LineTable.ofText text).lineColumn m.offset).2 =
    (m.indent (LineTable.ofText text)).length
  blank : ∀ c ∈ m.indent (LineTable.ofText text), isBlank c = true

lemma labelDirective_eq (id : Text) : labelDirective id = labelLine id ++ ['\n'] := by
  unfold labelDirective directive labelLine
  simp

/-- A mark among the blanks that a line of the text begins with is on that line, behind some of
them. -/
lemma line_of_blank {text : Text} {m : Mark} {n k : Nat} (hn : n < (segments text).length)
    (hk : k ≤ blankCount ((LineTable.ofText text).lineText n))
    (hoffset : m.offset = (LineTable.ofText text).lineStart n + k) :
    m.line (LineTable.ofText text) = n ∧ ((LineTable.ofText text).lineColumn m.offset).2 = k ∧
      m.indent (LineTable.ofText text) =
        (((LineTable.ofText text).lineText n).takeWhile isBlank).take k := by
  have hprefix : (((LineTable.ofText text).lineText n).takeWhile isBlank) <+:
      (LineTable.ofText text).lineText n := List.takeWhile_prefix isBlank
  have hcount : blankCount ((LineTable.ofText text).lineText n) ≤
      ((LineTable.ofText text).lineText n).length := hprefix.length_le
  have hcolumn : (LineTable.ofText text).lineColumn m.offset = (n, k) := by
    rw [hoffset, LineTable.lineColumn_eq text hn (hk.trans hcount)]
  refine ⟨congrArg Prod.fst hcolumn, congrArg Prod.snd hcolumn, ?_⟩
  rw [Mark.indent, indentAt, hcolumn]
  obtain ⟨rest, hrest⟩ := hprefix
  conv_lhs => rw [← hrest]
  exact List.take_append_of_le_length hk

/-- So the mark is on a line of the text, with nothing but blanks in front of it. -/
lemma onLine_of_blank {text : Text} {m : Mark} {n k : Nat} (hn : n < (segments text).length)
    (hk : k ≤ blankCount ((LineTable.ofText text).lineText n))
    (hoffset : m.offset = (LineTable.ofText text).lineStart n + k) : m.OnLine text := by
  obtain ⟨hline, hcolumn, hindent⟩ := line_of_blank hn hk hoffset
  have hlength : (m.indent (LineTable.ofText text)).length = k := by
    rw [hindent, List.length_take]
    exact Nat.min_eq_left hk
  refine ⟨hline ▸ hn, by rw [hline, hlength, hoffset], by rw [hcolumn, hlength], fun c hc => ?_⟩
  rw [hindent] at hc
  exact List.mem_takeWhile_imp (List.mem_of_mem_take hc)

section OnLine

variable {text : Text} {m m' : Mark}

/-- What is in front of a mark are the lines in front of its line, and blanks. -/
lemma Mark.OnLine.take_offset (h : m.OnLine text) : text.take m.offset =
    text.take ((LineTable.ofText text).lineStart (m.line (LineTable.ofText text))) ++
      m.indent (LineTable.ofText text) := by
  have hprefix : m.indent (LineTable.ofText text) <+:
      text.drop ((LineTable.ofText text).lineStart (m.line (LineTable.ofText text))) :=
    (List.take_prefix _ _).trans (List.takeWhile_prefix _)
  conv_lhs => rw [h.offset, List.take_add]
  rw [← List.prefix_iff_eq_take.mp hprefix]

lemma Mark.OnLine.offset_le (h : m.OnLine text) : m.offset ≤ text.length := by
  have hline := LineTable.lineText_le text (m.line (LineTable.ofText text))
  have hend := LineTable.lineStart_le text (m.line (LineTable.ofText text) + 1)
  have hindent : (m.indent (LineTable.ofText text)).length ≤
      ((LineTable.ofText text).lineText (m.line (LineTable.ofText text))).length :=
    (List.take_prefix _ _).length_le
  rw [h.offset]
  omega

/-- A mark behind another one is on the same line, or on a later one. -/
lemma Mark.OnLine.line_le (h : m.OnLine text) (h' : m'.OnLine text) (hle : m.offset ≤ m'.offset) :
    m.line (LineTable.ofText text) ≤ m'.line (LineTable.ofText text) := by
  by_contra hlt
  have hindent : (m'.indent (LineTable.ofText text)).length ≤
      ((LineTable.ofText text).lineText (m'.line (LineTable.ofText text))).length :=
    (List.take_prefix _ _).length_le
  have hend := LineTable.lineText_lt text (n := m'.line (LineTable.ofText text))
    (by have := h.lt; omega)
  have hstart : (LineTable.ofText text).lineStart (m'.line (LineTable.ofText text) + 1) ≤
      (LineTable.ofText text).lineStart (m.line (LineTable.ofText text)) :=
    LineTable.lineStart_mono text (by omega)
  have := h.offset
  have := h'.offset
  omega

/-- What is inserted for a mark is its label and what stands in front of it. -/
lemma Mark.OnLine.labelMarkup_eq (h : m.OnLine text) :
    labelMarkup (LineTable.ofText text) m.offset m.id =
      labelLine m.id ++ '\n' :: m.indent (LineTable.ofText text) := by
  have hindent : (text.drop ((LineTable.ofText text).lineStart
      (m.line (LineTable.ofText text)))).take (m.indent (LineTable.ofText text)).length =
      m.indent (LineTable.ofText text) :=
    (List.prefix_iff_eq_take.mp ((List.take_prefix _ _).trans (List.takeWhile_prefix _))).symm
  have hblank : (m.indent (LineTable.ofText text)).all isBlank = true :=
    List.all_eq_true.mpr h.blank
  have hoffset := h.offset
  have hcolumn : (LineTable.ofText text).lineColumn m.offset =
      (m.line (LineTable.ofText text), (m.indent (LineTable.ofText text)).length) :=
    Prod.ext rfl h.column
  have hback : m.offset - (LineTable.ofText text).lineStart (m.line (LineTable.ofText text)) =
      (m.indent (LineTable.ofText text)).length := by omega
  rw [labelMarkup, hcolumn, show (LineTable.ofText text).text = text from rfl]
  dsimp only
  rw [hback, hindent, if_pos hblank, labelDirective_eq]
  split_ifs with hzero
  · rw [List.length_eq_zero_iff.mp hzero]
  · rw [List.append_assoc, List.singleton_append]

/-- In a text that is not changed in front of a mark, the label goes in above the line of the
mark. -/
lemma apply_mark (h : m.OnLine text) {xs : Text} (hxs : xs.take m.offset = text.take m.offset) :
    (m.edit (LineTable.ofText text)).apply xs =
      text.take ((LineTable.ofText text).lineStart (m.line (LineTable.ofText text))) ++
        ((m.labelled (LineTable.ofText text)).text ++
          xs.drop ((LineTable.ofText text).lineStart (m.line (LineTable.ofText text)))) := by
  have hstart := LineTable.lineStart_le text (m.line (LineTable.ofText text))
  have hle : m.offset ≤ xs.length := by
    have hlength := congrArg List.length hxs
    rw [List.length_take, List.length_take] at hlength
    have := h.offset_le
    omega
  have hdrop : xs.drop ((LineTable.ofText text).lineStart (m.line (LineTable.ofText text))) =
      m.indent (LineTable.ofText text) ++ xs.drop m.offset := by
    conv_lhs => rw [← List.take_append_drop m.offset xs, hxs, h.take_offset, List.append_assoc]
    exact List.drop_left' (by rw [List.length_take, Nat.min_eq_left hstart])
  have hguard : (0 : Int) ≤ (m.offset : Int) ∧ (m.offset : Int) ≤ (m.offset : Int) ∧
      (m.offset : Int) ≤ xs.length := ⟨by omega, le_rfl, by omega⟩
  rw [Mark.edit, Edit.apply, if_pos hguard, Int.toNat_natCast, hxs, h.take_offset,
    h.labelMarkup_eq, hdrop, Mark.labelled, Segment.text]
  simp only [List.append_assoc, List.cons_append, List.nil_append]

end OnLine

/-! ### Lines with labels -/

/-- The marks on the line with a number. -/
def marksOn (table : LineTable) (ms : List Mark) (n : Nat) : List Mark :=
  ms.filter fun m => m.line table = n

/-- The lines of a text, numbered from `n` on, each below the labels of the marks that are on it. -/
def withLabels (table : LineTable) (ms : List Mark) (n : Nat) : List Segment → List Segment
  | [] => []
  | s :: ss => (marksOn table ms n).map (Mark.labelled table) ++ s :: withLabels table ms (n + 1) ss

section WithLabels

variable {table : LineTable} {ms : List Mark} {m : Mark}

lemma withLabels_append (n : Nat) (ss ss' : List Segment) :
    withLabels table ms n (ss ++ ss') =
      withLabels table ms n ss ++ withLabels table ms (n + ss.length) ss' := by
  induction ss generalizing n with
  | nil => rfl
  | cons s ss ih =>
      rw [List.cons_append, withLabels, withLabels, ih, List.length_cons, List.append_assoc,
        List.cons_append]
      congr 4
      omega

/-- No labels go above lines that have no marks. -/
lemma withLabels_of_apart {n : Nat} {ss : List Segment}
    (h : ∀ m ∈ ms, m.line table < n ∨ n + ss.length ≤ m.line table) :
    withLabels table ms n ss = ss := by
  induction ss generalizing n with
  | nil => rfl
  | cons s ss ih =>
      simp only [List.length_cons] at h
      have hnone : marksOn table ms n = [] := by
        refine List.filter_eq_nil_iff.mpr fun m hm => ?_
        have := h m hm
        simp only [decide_eq_true_eq]
        omega
      have hrest := ih (n := n + 1) fun m hm => by
        have := h m hm
        omega
      rw [withLabels, hnone, hrest, List.map_nil, List.nil_append]

/-- No labels go above lines in front of all the marks. -/
lemma withLabels_of_le {n : Nat} {ss : List Segment}
    (h : ∀ m ∈ ms, n + ss.length ≤ m.line table) : withLabels table ms n ss = ss :=
  withLabels_of_apart fun m hm => Or.inr (h m hm)

/-- A mark on a line in front of all the lines does not count. -/
lemma withLabels_cons_of_lt {n : Nat} {ss : List Segment} (h : m.line table < n) :
    withLabels table (m :: ms) n ss = withLabels table ms n ss := by
  induction ss generalizing n with
  | nil => rfl
  | cons s ss ih =>
      rw [withLabels, withLabels, ih (h.trans n.lt_succ_self), marksOn, marksOn,
        List.filter_cons_of_neg (by simpa using h.ne)]

/-- The lines in front of all the marks come without labels. -/
lemma withLabels_split {n : Nat} {ss : List Segment} (hn : n ≤ ss.length)
    (h : ∀ m ∈ ms, n ≤ m.line table) :
    withLabels table ms 0 ss = ss.take n ++ withLabels table ms n (ss.drop n) := by
  have hlength : (ss.take n).length = n := by rw [List.length_take, Nat.min_eq_left hn]
  conv_lhs => rw [← List.take_append_drop n ss, withLabels_append, hlength]
  rw [Nat.zero_add, withLabels_of_le]
  rwa [hlength, Nat.zero_add]

/-- The label of a mark in front of the others comes above its line. -/
lemma withLabels_cons {ss : List Segment} (hn : m.line table < ss.length)
    (h : ∀ m' ∈ ms, m.line table ≤ m'.line table) :
    withLabels table (m :: ms) 0 ss = ss.take (m.line table) ++
      m.labelled table :: withLabels table ms (m.line table) (ss.drop (m.line table)) := by
  rw [withLabels_split hn.le (List.forall_mem_cons.mpr ⟨le_rfl, h⟩), List.drop_eq_getElem_cons hn,
    withLabels, withLabels, withLabels_cons_of_lt (Nat.lt_succ_self _), marksOn, marksOn,
    List.filter_cons_of_pos (by simp), List.map_cons, List.cons_append]

end WithLabels

/-- A line that is not empty and ends with a line feed may stand between lines of a text. -/
lemma wellClosed_insert {s : Segment} {before behind : List Segment}
    (h : WellClosed (before ++ behind)) (hbehind : behind ≠ []) (hplain : Plain s.line)
    (hline : s.line ≠ []) (hclose : s.close = ['\n']) : WellClosed (before ++ s :: behind) := by
  induction before with
  | nil => exact (wellClosed_cons hbehind).mpr ⟨hplain, Or.inl hclose, h⟩
  | cons r before ih =>
      have hne : before ++ behind ≠ [] := by simp [hbehind]
      obtain ⟨hr, hbreak, hrest⟩ := (wellClosed_cons hne).mp h
      rw [List.cons_append]
      refine (wellClosed_cons (by simp)).mpr ⟨hr, ?_, ih hrest⟩
      refine hbreak.imp_right (Or.imp_right fun ⟨hreturn, hhead⟩ => ⟨hreturn, ?_⟩)
      cases before with
      | nil =>
          -- the new line does not begin with a line feed
          obtain ⟨c, cs, hcons⟩ := List.exists_cons_of_ne_nil hline
          have hc := (plain_cons.mp (hcons ▸ hplain)).1
          have hfirst : (joined ([] ++ s :: behind)).head? = some c := by
            simp [joined, Segment.text, hcons]
          rw [hfirst]
          rintro heq
          obtain rfl := Option.some.inj heq
          simp [isLineBreak] at hc
      | cons q before =>
          have hq : q.text ≠ [] := by
            obtain ⟨-, hbreak, -⟩ := (wellClosed_cons (by simp [hbehind])).mp hrest
            rcases hbreak with hbreak | hbreak | ⟨hbreak, -⟩ <;> simp [Segment.text, hbreak]
          rw [List.cons_append, joined, List.flatMap_cons,
            List.head?_append_of_ne_nil _ hq] at hhead ⊢
          exact hhead

lemma labelLine_ne_nil (id : Text) : labelLine id ≠ [] := by
  unfold labelLine
  simp

lemma isLineBreak_of_isBlank {c : Char} (h : isBlank c = true) : isLineBreak c = false := by
  simp only [isBlank, Bool.or_eq_true, beq_iff_eq] at h
  rcases h with rfl | rfl <;> rfl

lemma plain_labelLine {id : Text} (h : Plain id) : Plain (labelLine id) :=
  plain_append.mpr ⟨plain_append.mpr ⟨by decide, h⟩, by decide⟩

/-- Edits do not change what is in front of all of them. -/
lemma take_foldr_apply {text : Text} {es : List Edit} {o : Nat}
    (h : ∀ e ∈ es, (o : Int) ≤ e.start) : (es.foldr Edit.apply text).take o = text.take o := by
  induction es with
  | nil => rfl
  | cons e es ih =>
      obtain ⟨he, hes⟩ := List.forall_mem_cons.mp h
      rw [List.foldr_cons, Edit.apply]
      split_ifs with hguard
      · rw [List.append_assoc, List.take_append_of_le_length (by rw [List.length_take]; omega),
          List.take_take, Nat.min_eq_left (by omega), ih hes]
      · exact ih hes

/-- The label of a mark goes in as a line, in front of the rest of the text. -/
lemma segments_apply_mark {text xs : Text} {m : Mark} {rest : List Segment} (h : m.OnLine text)
    (hid : Plain m.id) (htake : xs.take m.offset = text.take m.offset) (hrest : rest ≠ [])
    (hxs : segments xs = (segments text).take (m.line (LineTable.ofText text)) ++ rest) :
    segments ((m.edit (LineTable.ofText text)).apply xs) =
      (segments text).take (m.line (LineTable.ofText text)) ++
        m.labelled (LineTable.ofText text) :: rest := by
  have hstart := LineTable.lineStart_eq text (m.line (LineTable.ofText text))
  obtain ⟨hjoined, hclosed⟩ := segments_spec xs
  rw [hxs] at hjoined hclosed
  have hdrop : xs.drop ((LineTable.ofText text).lineStart (m.line (LineTable.ofText text))) =
      joined rest := by
    rw [← hjoined, joined_append, List.drop_left' hstart.symm]
  have hplain : Plain (m.labelled (LineTable.ofText text)).line :=
    plain_append.mpr ⟨fun c hc => isLineBreak_of_isBlank (h.blank c hc), plain_labelLine hid⟩
  have hline : (m.labelled (LineTable.ofText text)).line ≠ [] :=
    List.append_ne_nil_of_right_ne_nil _ (labelLine_ne_nil m.id)
  rw [apply_mark h htake, hdrop, LineTable.take_lineStart,
    ← segments_joined (wellClosed_insert hclosed hrest hplain hline rfl), joined_append]
  rfl

/-- With the labels of marks in order, the lines of a text are its own lines below the labels of
the marks that are on them. -/
lemma segments_marks {text : Text} {ms : List Mark} (hline : ∀ m ∈ ms, m.OnLine text)
    (hid : ∀ m ∈ ms, Plain m.id) (hsorted : ms.Pairwise fun m m' => m.offset ≤ m'.offset) :
    segments ((ms.map (Mark.edit (LineTable.ofText text))).foldr Edit.apply text) =
      withLabels (LineTable.ofText text) ms 0 (segments text) := by
  induction ms with
  | nil => rw [withLabels_of_le (by simp), List.map_nil, List.foldr_nil]
  | cons m ms ih =>
      obtain ⟨hm, hms⟩ := List.forall_mem_cons.mp hline
      obtain ⟨hplain, hplains⟩ := List.forall_mem_cons.mp hid
      obtain ⟨hfirst, hrest⟩ := List.pairwise_cons.mp hsorted
      have hle : ∀ m' ∈ ms, m.line (LineTable.ofText text) ≤ m'.line (LineTable.ofText text) :=
        fun m' hm' => hm.line_le (hms m' hm') (hfirst m' hm')
      have htake : ((ms.map (Mark.edit (LineTable.ofText text))).foldr Edit.apply text).take
          m.offset = text.take m.offset := by
        refine take_foldr_apply fun e he => ?_
        obtain ⟨m', hm', rfl⟩ := List.mem_map.mp he
        exact Int.ofNat_le.mpr (hfirst m' hm')
      have hxs := ih hms hplains hrest
      rw [withLabels_split hm.lt.le hle] at hxs
      rw [List.map_cons, List.foldr_cons, withLabels_cons hm.lt hle]
      refine segments_apply_mark hm hplain htake ?_ hxs
      rw [List.drop_eq_getElem_cons hm.lt, withLabels]
      simp

/-- Of marks in order, those on a line follow those on the lines in front of it. -/
lemma filter_append_marksOn {table : LineTable} {ms : List Mark} (n : Nat)
    (h : ms.Pairwise fun m m' => m.line table ≤ m'.line table) :
    (ms.filter fun m => m.line table < n) ++ marksOn table ms n =
      ms.filter fun m => m.line table < n + 1 := by
  rw [marksOn]
  induction ms with
  | nil => rfl
  | cons m ms ih =>
      obtain ⟨hm, hms⟩ := List.pairwise_cons.mp h
      by_cases hlt : m.line table < n
      · rw [List.filter_cons_of_pos (by simpa using hlt),
          List.filter_cons_of_neg (by simpa using hlt.ne),
          List.filter_cons_of_pos (by simpa using hlt.le), List.cons_append, ih hms]
      · -- no mark that follows is on a line in front
        have hge : ∀ m' ∈ m :: ms, n ≤ m'.line table := by
          refine List.forall_mem_cons.mpr ⟨Nat.le_of_not_lt hlt, fun m' hm' => ?_⟩
          exact (Nat.le_of_not_lt hlt).trans (hm m' hm')
        have hnone : (m :: ms).filter (fun m => m.line table < n) = [] :=
          List.filter_eq_nil_iff.mpr fun m' hm' => by simpa using hge m' hm'
        rw [hnone, List.nil_append]
        refine List.filter_congr fun m' hm' => ?_
        have := hge m' hm'
        simp only [decide_eq_decide]
        omega

/-- Marks in order are the marks on the single lines, line by line. -/
lemma flatMap_marksOn {table : LineTable} {ms : List Mark} (n : Nat)
    (h : ms.Pairwise fun m m' => m.line table ≤ m'.line table) :
    (List.range n).flatMap (marksOn table ms) = ms.filter fun m => m.line table < n := by
  induction n with
  | zero => simp
  | succ n ih =>
      rw [List.range_succ, List.flatMap_append, ih, List.flatMap_singleton,
        filter_append_marksOn n h]

/-! ### The marks of a document -/

section Marks

variable {text : Text} {bs : List Block}

lemma plain_marks_id {table : LineTable} {locate : Nat → EditorPosition} {m : Mark}
    (h : m ∈ marks table bs locate) : Plain m.id := by
  rcases List.mem_cons.mp h with rfl | h
  · decide
  · obtain ⟨-, -, n, -, hid⟩ := mem_marksFrom h
    have hnumber : Plain numberAlphabet := by decide
    rw [hid]
    refine plain_append.mpr ⟨plain_append.mpr ⟨by decide, ?_⟩, plain_cons.mpr ⟨rfl, ?_⟩⟩
    · exact hnumber.subset (ofInt_subset _)
    · exact hnumber.subset (ofNat_subset n)

/-- Every mark of a document is on a line, behind blanks only. -/
lemma marks_onLine (locate : Nat → EditorPosition) (hparse : parse text = .ok bs) :
    ∀ m ∈ marks (LineTable.ofText text) bs locate, m.OnLine text := by
  intro m hm
  rcases List.mem_cons.mp hm with rfl | hm
  · have hfirst : 0 < (segments text).length :=
      List.length_pos_iff.mpr (segments_spec text).2.ne_nil
    refine onLine_of_blank hfirst (Nat.zero_le _) ?_
    rw [LineTable.lineStart_eq]
    rfl
  · obtain ⟨b, hb, -, hoffset, -⟩ := mem_anchorOffsets.mp (mem_marksFrom hm).1
    have hfirst := parse_first_lt hparse b hb
    rw [anchorOffset] at hoffset
    split at hoffset
    · exact onLine_of_blank hfirst (Nat.zero_le _) hoffset.symm
    · exact onLine_of_blank hfirst le_rfl hoffset.symm

lemma marks_pairwise (table : LineTable) (bs : List Block) (locate : Nat → EditorPosition) :
    (marks table bs locate).Pairwise fun m m' => m.offset ≤ m'.offset := by
  refine List.pairwise_cons.mpr ⟨fun m _ => Nat.zero_le _, List.pairwise_map.mp ?_⟩
  rw [map_offset_marksFrom]
  exact anchorOffsets_pairwise table bs

/-- Insertions in order, inside a text, fit it. -/
lemma fits_marks {table : LineTable} {ms : List Mark} {low high : Nat} (hle : low ≤ high)
    (hlow : ∀ m ∈ ms, low ≤ m.offset) (hhigh : ∀ m ∈ ms, m.offset ≤ high)
    (hsorted : ms.Pairwise fun m m' => m.offset ≤ m'.offset) :
    Fits low high (ms.map (Mark.edit table)) := by
  induction ms generalizing low with
  | nil => exact Int.ofNat_le.mpr hle
  | cons m ms ih =>
      obtain ⟨hfirst, hrest⟩ := List.pairwise_cons.mp hsorted
      obtain ⟨hm, hms⟩ := List.forall_mem_cons.mp hhigh
      exact ⟨Int.ofNat_le.mpr (hlow m List.mem_cons_self), le_rfl, ih hm hfirst hms hrest⟩

/-- The labels of a document fit its text. -/
lemma marks_fit (locate : Nat → EditorPosition) (hparse : parse text = .ok bs) :
    Fits 0 text.length
      ((marks (LineTable.ofText text) bs locate).map (Mark.edit (LineTable.ofText text))) :=
  fits_marks (Nat.zero_le _) (fun _ _ => Nat.zero_le _)
    (fun m hm => (marks_onLine locate hparse m hm).offset_le) (marks_pairwise _ _ _)

end Marks

/-! ### Texts with labels -/

/-- The text `out` is the text with the labels of marks, each on a line of its own above the line
that the mark is on, behind the blanks that stand in front of the mark. -/
structure Labelled (text out : Text) (ms : List Mark) : Prop where
  indent : ∀ m ∈ ms, ∀ c ∈ m.indent (LineTable.ofText text), isBlank c = true
  once : (List.range (segments text).length).flatMap (marksOn (LineTable.ofText text) ms) = ms
  lines : segments out = withLabels (LineTable.ofText text) ms 0 (segments text)
  length : out.length = text.length +
    (ms.map fun m => (labelMarkup (LineTable.ofText text) m.offset m.id).length).sum

/-- The marks of a document are set as labels. -/
lemma labelled_splice {text : Text} {bs : List Block} (locate : Nat → EditorPosition)
    (hparse : parse text = .ok bs) :
    Labelled text
      (splice text
        ((marks (LineTable.ofText text) bs locate).map (Mark.edit (LineTable.ofText text))))
      (marks (LineTable.ofText text) bs locate) := by
  have hline := marks_onLine locate hparse
  have hsorted := marks_pairwise (LineTable.ofText text) bs locate
  have hfit := marks_fit locate hparse
  refine ⟨fun m hm => (hline m hm).blank, ?_, ?_, ?_⟩
  · rw [flatMap_marksOn]
    · exact List.filter_eq_self.mpr fun m hm => decide_eq_true (hline m hm).lt
    · exact hsorted.imp_of_mem fun hm hm' hle => (hline _ hm).line_le (hline _ hm') hle
  · rw [splice, hfit.orderEdits_eq]
    exact segments_marks hline (fun m hm => plain_marks_id hm) hsorted
  · have hgrowth : Edit.growth ∘ Mark.edit (LineTable.ofText text) =
        fun m => ((labelMarkup (LineTable.ofText text) m.offset m.id).length : Int) := by
      funext m
      rw [Function.comp_apply, Edit.growth, Mark.edit]
      dsimp only
      omega
    have hlength := length_splice hfit
    rw [List.map_map, hgrowth] at hlength
    zify
    rw [hlength, List.map_map]
    rfl

/-- Setting labels keeps the lines of a document whole. Behind the anchor at its start, there is an
anchor for every offset where a block takes one, off quoted lines: each offset once, in increasing
order. The lines of the text with labels are the lines of the document, with their breaks, and one
more for each anchor, in order: its label, above the line that it belongs to. -/
theorem injectAnchors_lines {text : Text} {bs : List Block} (hparse : parse text = .ok bs) :
    ∃ out anchors ms, injectAnchors text = .ok (out, anchors) ∧
      anchors = (startMark :: ms).map Mark.anchor ∧
      (ms.map Mark.offset).Pairwise (· < ·) ∧
      (∀ o, o ∈ ms.map Mark.offset ↔ ∃ b ∈ bs, takesAnchor b.shape = true ∧
        anchorOffset (LineTable.ofText text) b = o ∧
        isQuotedLine (LineTable.ofText text) o = false) ∧
      (∀ m ∈ ms, m.editor = (LineTable.ofText text).position m.offset) ∧
      Labelled text out (startMark :: ms) := by
  refine ⟨_, _, marksFrom (LineTable.ofText text).position 1
    (anchorOffsets (LineTable.ofText text) bs), injectAnchorsBy_of_parse _ hparse, rfl, ?_,
    fun o => ?_, fun m hm => (mem_marksFrom hm).2.1, labelled_splice _ hparse⟩
  · rw [map_offset_marksFrom]
    exact anchorOffsets_strict _ bs
  · rw [map_offset_marksFrom]
    exact mem_anchorOffsets

/-- Code in a list, two lines that end with carriage returns, and a paragraph. The first line has
three labels: that of the document and that of the code at its start, and that of the list behind
its indentation. -/
theorem injectAnchors_lines_code :
    let text : Text := "  -     c\r\rx".toList
    let bs : List Block := [⟨.bulletList, 0, 2, 0⟩, ⟨.item, 0, 2, 1⟩,
      ⟨.code "c\n".toList, 0, 1, 2⟩, ⟨.paragraph "x".toList, 2, 3, 0⟩]
    let out := labelDirective "tf-doc-start".toList ++ labelDirective "tf-0-1".toList ++
      "  ".toList ++ labelDirective "tf-2-2".toList ++ "  -     c\r\r".toList ++
      labelDirective "tf-11-3".toList ++ "x".toList
    parse text = .ok bs ∧
      ∃ anchors ms, injectAnchors text = .ok (out, anchors) ∧
        anchors = (startMark :: ms).map Mark.anchor ∧ (ms.map Mark.offset).Pairwise (· < ·) ∧
        Labelled text out (startMark :: ms) := by
  intro text bs out
  have hparse : parse text = .ok bs := by decide +kernel
  have hout : (injectAnchors text).map Prod.fst = .ok out := by decide +kernel
  obtain ⟨out', anchors, ms, hinject, hanchors, hsorted, -, -, hlabelled⟩ :=
    injectAnchors_lines hparse
  rw [hinject] at hout
  obtain rfl : out' = out := Except.ok.inj hout
  exact ⟨hparse, anchors, ms, hinject, hanchors, hsorted, hlabelled⟩

end Galley
