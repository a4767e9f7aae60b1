import Galley.Proofs.LabelPlaces
import Galley.Proofs.Markdown.WovenDocument
import Mathlib.Tactic

/-!
The leaf blocks of a document with labels.

* `Mark.IsOf`: the mark of a block, on its first line;
* `Separable`: a document that labels do not take apart: its code is in no container, no label comes
  between the first two lines of what may be a table or makes an item the first of them, and no
  heading of several lines has a bracket;
* `labelling`: where the labels go;
* `injectAnchors_leaves`: setting labels keeps the leaf blocks of such a document.
-/

namespace Galley

open Markdown

/-! ### Marks on the first lines of blocks -/

/-- The mark is that of a block: on its first line, at the start if the block is code, and behind
the blanks in front if not. -/
structure Mark.IsOf (text : Text) (b : Block) (m : Mark) : Prop where
  takes : takesAnchor b.shape = true
  offset : anchorOffset (LineTable.ofText text) b = m.offset
  unquoted : isQuotedLine (LineTable.ofText text) m.offset = false
  line : m.line (LineTable.ofText text) = b.first
  indent : m.indent (LineTable.ofText text) =
    if b.shape.isCode then [] else ((LineTable.ofText text).lineText b.first).takeWhile isBlank

section Marks

variable {text : Text} {bs : List Block} {m : Mark}

lemma anchorOffset_eq (table : LineTable) (b : Block) : anchorOffset table b =
    if b.shape.isCode then table.lineStart b.first else table.firstNonBlank b.first := by
  rw [anchorOffset]
  cases b.shape <;> rfl

/-- The mark at the start of a document is on its first line. -/
lemma startMark_place (text : Text) : startMark.line (LineTable.ofText text) = 0 ∧
    startMark.indent (LineTable.ofText text) = [] := by
  have hfirst : 0 < (segments text).length := List.length_pos_iff.mpr (segments_ne_nil text)
  obtain ⟨hline, -, hindent⟩ := line_of_blank (m := startMark) hfirst (Nat.zero_le _)
    (by rw [LineTable.lineStart_eq]; rfl)
  exact ⟨hline, hindent⟩

/-- A mark behind the first one is that of a block. -/
lemma mem_marks {locate : Nat → EditorPosition} (hparse : parse text = .ok bs)
    (hm : m ∈ marksFrom locate 1 (anchorOffsets (LineTable.ofText text) bs)) :
    ∃ b ∈ bs, m.IsOf text b := by
  obtain ⟨b, hb, htakes, hoffset, hunquoted⟩ := mem_anchorOffsets.mp (mem_marksFrom hm).1
  have hfirst := parse_first_lt hparse b hb
  have heq := anchorOffset_eq (LineTable.ofText text) b
  rw [hoffset] at heq
  cases hcode : b.shape.isCode with
  | true =>
      rw [hcode, if_pos rfl] at heq
      obtain ⟨hline, -, hindent⟩ := line_of_blank hfirst (Nat.zero_le _) heq
      exact ⟨b, hb, htakes, hoffset, hunquoted, hline, by rw [hcode, hindent]; rfl⟩
  | false =>
      rw [hcode, if_neg Bool.false_ne_true] at heq
      obtain ⟨hline, -, hindent⟩ := line_of_blank hfirst le_rfl heq
      refine ⟨b, hb, htakes, hoffset, hunquoted, hline, ?_⟩
      rw [hcode, if_neg Bool.false_ne_true, hindent]
      exact List.take_length

lemma marks_name {table : LineTable} {locate : Nat → EditorPosition}
    (hm : m ∈ marks table bs locate) :
    ∀ c ∈ m.id, c.isAlphanum = true ∨ c = '-' := by
  have hname : ∀ t : Text, t.all (fun c => c.isAlphanum || c == '-') = true →
      ∀ c ∈ t, c.isAlphanum = true ∨ c = '-' :=
    fun t h c hc => by simpa using List.all_eq_true.mp h c hc
  have hdigits : digitAlphabet.all Char.isAlphanum = true := by decide
  have hnat : ∀ n, ∀ c ∈ Text.ofNat n, c.isAlphanum = true :=
    fun n c hc => List.all_eq_true.mp hdigits c (mem_digitAlphabet (ofNat_digits hc))
  have hint : ∀ n, ∀ c ∈ Text.ofInt n, c.isAlphanum = true ∨ c = '-' := by
    intro n c hc
    cases n with
    | ofNat n => exact Or.inl (hnat n c hc)
    | negSucc n =>
        rcases List.mem_cons.mp hc with rfl | hc
        · exact Or.inr rfl
        · exact Or.inl (hnat _ c hc)
  rcases List.mem_cons.mp hm with rfl | hm
  · exact hname _ (by decide)
  · obtain ⟨-, -, n, -, hid⟩ := mem_marksFrom hm
    rw [hid]
    intro c hc
    rcases List.mem_append.mp hc with hc | hc
    · rcases List.mem_append.mp hc with hc | hc
      · exact hname _ (by decide) c hc
      · exact hint _ c hc
    · rcases List.mem_cons.mp hc with rfl | hc
      · exact Or.inr rfl
      · exact Or.inl (hnat n c hc)

lemma marks_isPlain {locate : Nat → EditorPosition} (hparse : parse text = .ok bs)
    (hm : m ∈ marks (LineTable.ofText text) bs locate) : m.IsPlain (LineTable.ofText text) :=
  ⟨marks_name hm, (marks_onLine locate hparse m hm).blank⟩

lemma parse_mem (hparse : parse text = .ok bs) {b : Block} (hb : b ∈ bs) :
    .block b ∈ blockEvents (documentLines text) := by
  rw [parse] at hparse
  split_ifs at hparse
  obtain rfl := Except.ok.inj hparse
  exact mem_blocks.mp ((blocksOf_subperm (documentEvents text)).subset hb)

end Marks

/-! ### The lines of a document -/

section Lines

variable {text : Text} {n : Nat}

lemma at_documentLines (text : Text) (n : Nat) : (documentLines text).at n = Line.void ∨
    ∃ ended, (documentLines text).at n =
      Line.ofText ended (((LineTable.ofText text).lineText n).map visible) := by
  rw [Lines.at, List.getD_eq_getElem?_getD, documentLines_eq, getElem?_linesOfPieces,
    List.getElem?_map, LineTable.lineText_eq]
  cases (segments text)[n]? with
  | none => exact Or.inl rfl
  | some segment =>
      simp only [Option.map_some, Option.bind_some]
      split_ifs
      · exact Or.inl rfl
      · exact Or.inr ⟨_, rfl⟩

lemma indent_documentLines (text : Text) (n : Nat) : 0 ≤ ((documentLines text).at n).indent := by
  rcases at_documentLines text n with h | ⟨ended, h⟩
  · rw [h]
    exact le_rfl
  · rw [h]
    exact Int.natCast_nonneg _

lemma isBlank_visible (c : Char) : isBlank (visible c) = isBlank c := by
  rw [visible]
  split_ifs with hnul
  · rw [beq_iff_eq] at hnul
    rw [hnul]
    rfl
  · rfl

/-- The column of a line with content. -/
lemma indent_of_filled (h : ((documentLines text).at n).isVoid = false) :
    ((documentLines text).at n).indent =
      (skipBlanks 0 0 (((LineTable.ofText text).lineText n).takeWhile isBlank)).1 := by
  rcases at_documentLines text n with hvoid | ⟨ended, hline⟩
  · rw [hvoid] at h
    exact Bool.noConfusion h
  · have hblanks : (((LineTable.ofText text).lineText n).map visible).takeWhile isBlank =
        ((LineTable.ofText text).lineText n).takeWhile isBlank := by
      rw [List.takeWhile_map, show isBlank ∘ visible = isBlank from funext isBlank_visible]
      refine (List.map_congr_left fun c hc => ?_).trans (List.map_id _)
      have hc := List.mem_takeWhile_imp hc
      have hne : c ≠ '\x00' := by
        rintro rfl
        exact absurd hc (by decide)
      simp [visible, hne]
    rw [hline, Line.ofText, skipBlanks_takeWhile, hblanks]

/-- No line feed is in a line. -/
lemma feedless_documentLines (text : Text) (n : Nat) :
    '\n' ∉ ((documentLines text).at n).content := by
  intro hmem
  rw [documentLines, content_ofText] at hmem
  obtain ⟨c, hc, hfeed⟩ := List.mem_map.mp ((List.dropWhile_suffix _).subset hmem)
  have hplain := List.mem_takeWhile_imp hc
  rw [visible] at hfeed
  split_ifs at hfeed with hnul
  · exact absurd hfeed (by decide)
  · subst hfeed
    exact absurd hplain (by decide)

/-- The line is one of a quote, as the labels see it. -/
def isQuoted (text : Text) (n : Nat) : Bool :=
  (((LineTable.ofText text).lineText n).dropWhile isSpace).head? == some '>'

lemma head_of_unquoted (h : isQuoted text n = false) :
    ((documentLines text).at n).content.head? ≠ some '>' := by
  intro hhead
  rw [documentLines, content_ofText, List.dropWhile_map,
    show isBlank ∘ visible = isBlank from funext isBlank_visible, List.head?_map] at hhead
  obtain ⟨c, hc, hmark⟩ := Option.map_eq_some_iff.mp hhead
  have hquote : c = '>' := by
    rw [visible] at hmark
    split_ifs at hmark with hnul
    · exact absurd hmark (by decide)
    · exact hmark
  obtain ⟨rest, hrest⟩ := List.head?_eq_some_iff.mp hc
  have hline :=
    List.takeWhile_append_dropWhile (p := isBlank) (l := (LineTable.ofText text).lineText n)
  rw [isQuoted, ← hline, hrest, hquote, List.dropWhile_append_of_pos
    (fun d hd => isSpace_of_isBlank (List.mem_takeWhile_imp hd)),
    List.dropWhile_cons_of_neg (by decide)] at h
  simp at h

end Lines

/-! ### Documents that labels do not take apart -/

/-- The line has a bar, and the line behind it may be the rule under the head of a table. -/
def IsRuled (lines : Lines) (n : Nat) : Prop :=
  '|' ∈ (lines.at n).content ∧ isTableRule (lines.at (n + 1)).content = true

instance (lines : Lines) (n : Nat) : Decidable (IsRuled lines n) :=
  inferInstanceAs (Decidable (_ ∧ _))

/-- A document whose leaf blocks labels do not change. Code that gets a label is in no container:
its label stands at the start of the line, and would end the container. An item that gets a label is
no head of a table, for the list goes on as another one behind the label, where tables are looked
for first. No label goes between two lines that would be the head and the rule of a table. And a
heading of more than one line does not look like a link definition that a label could end. -/
structure Separable (text : Text) (bs : List Block) : Prop where
  code : ∀ b ∈ bs, b.shape.isCode = true → isQuoted text b.first = false → b.depth = 0
  items : ∀ b ∈ blocks (documentEvents text), b.shape = .item → isQuoted text b.first = false →
    ¬ IsRuled (documentLines text) b.first
  rules : ∀ b ∈ bs, takesAnchor b.shape = true → isQuoted text b.first = false → 0 < b.first →
    ¬ IsRuled (documentLines text) (b.first - 1)
  headings : ∀ b ∈ blocks (documentEvents text), b.shape.isHeading = true → b.first + 1 < b.past →
    '[' ∉ ((documentLines text).at b.first).content

instance (text : Text) (bs : List Block) : Decidable (Separable text bs) :=
  decidable_of_iff
    ((∀ b ∈ bs, b.shape.isCode = true → isQuoted text b.first = false → b.depth = 0) ∧
      (∀ b ∈ blocks (documentEvents text), b.shape = .item → isQuoted text b.first = false →
        ¬ IsRuled (documentLines text) b.first) ∧
      (∀ b ∈ bs, takesAnchor b.shape = true → isQuoted text b.first = false → 0 < b.first →
        ¬ IsRuled (documentLines text) (b.first - 1)) ∧
      ∀ b ∈ blocks (documentEvents text), b.shape.isHeading = true → b.first + 1 < b.past →
        '[' ∉ ((documentLines text).at b.first).content)
    ⟨fun ⟨code, items, rules, headings⟩ => ⟨code, items, rules, headings⟩,
      fun ⟨code, items, rules, headings⟩ => ⟨code, items, rules, headings⟩⟩

/-- Where the labels of a document go. A bare line is no head of a table, and a plain one has no
bracket. -/
def labelling (text : Text) (bs : List Block) (locate : Nat → EditorPosition) : Labelling :=
  let on := marksOn (LineTable.ofText text) (marks (LineTable.ofText text) bs locate)
  { front := (on 0).length
    above := fun n => decide (0 < n) && !(on n).isEmpty
    id := fun n => ((on n).head?.map Mark.id).getD []
    flush := fun n => bs.any fun b => b.shape.isCode && b.first == n
    bare := fun n => ¬ IsRuled (documentLines text) n
    plain := fun n => '[' ∉ ((documentLines text).at n).content }

section Separable

variable {text : Text} {bs : List Block} {b b' : Block} {m m' : Mark} {n : Nat}

lemma Mark.IsOf.isQuoted (hm : m.IsOf text b) : isQuoted text b.first = false := by
  rw [← hm.line]
  exact hm.unquoted

variable (hparse : parse text = .ok bs) (hsep : Separable text bs)
include hparse hsep

/-- Code that gets a label has its line alone. -/
lemma Separable.code_alone (hb : b ∈ bs) (hb' : b' ∈ bs) (hcode : b.shape.isCode = true)
    (hquoted : isQuoted text b.first = false) (hfirst : b'.first = b.first) : b' = b := by
  have hleaf : b.shape.isContainer = false := by
    cases hshape : b.shape <;> first | rfl | simp [hshape, Shape.isCode] at hcode
  exact blockEvents_alone (parse_mem hparse hb) (parse_mem hparse hb') hleaf
    (hsep.code b hb hcode hquoted) hfirst

/-- The marks on one line are those of the same kind of blocks. -/
lemma Separable.isCode_eq (hb : b ∈ bs) (hb' : b' ∈ bs) (hquoted : isQuoted text b.first = false)
    (hfirst : b'.first = b.first) : b'.shape.isCode = b.shape.isCode := by
  cases hcode : b.shape.isCode with
  | true => rw [hsep.code_alone hparse hb hb' hcode hquoted hfirst, hcode]
  | false =>
      refine Bool.eq_false_iff.mpr fun hcode' => ?_
      have := hsep.code_alone hparse hb' hb hcode' (by rw [hfirst, hquoted]) hfirst.symm
      rw [this, hcode'] at hcode
      exact Bool.noConfusion hcode

lemma Separable.offset_eq (hb : b ∈ bs) (hb' : b' ∈ bs) (hm : m.IsOf text b) (hm' : m'.IsOf text b')
    (hfirst : b'.first = b.first) : m'.offset = m.offset := by
  rw [← hm.offset, ← hm'.offset, anchorOffset_eq, anchorOffset_eq, hfirst,
    hsep.isCode_eq hparse hb hb' hm.isQuoted hfirst]

omit hparse hsep in
lemma marksOn_marks (locate : Nat → EditorPosition) (hn : 0 < n) :
    marksOn (LineTable.ofText text) (marks (LineTable.ofText text) bs locate) n =
      marksOn (LineTable.ofText text)
        (marksFrom locate 1 (anchorOffsets (LineTable.ofText text) bs)) n := by
  refine List.filter_cons_of_neg ?_
  rw [(startMark_place text).1]
  simpa using hn.ne

/-- One label at most goes above a line behind the first. -/
lemma Separable.length_marksOn (locate : Nat → EditorPosition) (hn : 0 < n) :
    (marksOn (LineTable.ofText text) (marks (LineTable.ofText text) bs locate) n).length ≤ 1 := by
  rw [marksOn_marks locate hn]
  have hstrict : (marksOn (LineTable.ofText text)
      (marksFrom locate 1 (anchorOffsets (LineTable.ofText text) bs)) n).Pairwise
        fun m m' => m.offset < m'.offset := by
    refine List.Pairwise.filter _ (List.pairwise_map.mp ?_)
    rw [map_offset_marksFrom]
    exact anchorOffsets_strict _ bs
  have hsame : ∀ m ∈ marksOn (LineTable.ofText text)
      (marksFrom locate 1 (anchorOffsets (LineTable.ofText text) bs)) n,
      ∀ m' ∈ marksOn (LineTable.ofText text)
        (marksFrom locate 1 (anchorOffsets (LineTable.ofText text) bs)) n,
      m'.offset = m.offset := by
    intro m hm m' hm'
    obtain ⟨hm, hline⟩ := List.mem_filter.mp hm
    obtain ⟨hm', hline'⟩ := List.mem_filter.mp hm'
    obtain ⟨b, hb, hof⟩ := mem_marks hparse hm
    obtain ⟨b', hb', hof'⟩ := mem_marks hparse hm'
    simp only [decide_eq_true_eq] at hline hline'
    exact hsep.offset_eq hparse hb hb' hof hof' (by rw [← hof.line, ← hof'.line, hline, hline'])
  match h : marksOn (LineTable.ofText text)
      (marksFrom locate 1 (anchorOffsets (LineTable.ofText text) bs)) n with
  | [] => simp
  | [_] => simp
  | m :: m' :: _ =>
      rw [h] at hstrict hsame
      have hlt := (List.pairwise_cons.mp hstrict).1 m' List.mem_cons_self
      have heq := hsame m List.mem_cons_self m' (List.mem_cons_of_mem _ List.mem_cons_self)
      omega

variable (locate : Nat → EditorPosition)

lemma Separable.places : Places (LineTable.ofText text) (marks (LineTable.ofText text) bs locate)
    (labelling text bs locate) where
  front := rfl
  zero := rfl
  above n hn := by
    have hlength := hsep.length_marksOn hparse locate hn
    simp only [labelling, hn, decide_true, Bool.true_and]
    match h : marksOn (LineTable.ofText text) (marks (LineTable.ofText text) bs locate) n with
    | [] => exact Or.inl ⟨rfl, rfl⟩
    | [m] => exact Or.inr ⟨m, rfl, rfl, rfl⟩
    | _ :: _ :: _ => rw [h] at hlength; simp at hlength

/-- A line behind the first with a label is the first line of a block that gets one, and the label
is flush if the block is code. -/
lemma Separable.of_above (h : (labelling text bs locate).above n = true) :
    0 < n ∧ ∃ m b, b ∈ bs ∧ m.IsOf text b ∧ b.first = n ∧
      m ∈ marks (LineTable.ofText text) bs locate ∧
      marksOn (LineTable.ofText text) (marks (LineTable.ofText text) bs locate) n = [m] ∧
      (labelling text bs locate).id n = m.id ∧
      (labelling text bs locate).flush n = b.shape.isCode := by
  have hn : 0 < n := by
    simp only [labelling, Bool.and_eq_true, decide_eq_true_eq] at h
    exact h.1
  rcases (hsep.places hparse locate).above n hn with ⟨-, hnone⟩ | ⟨m, hm, -, hid⟩
  · rw [hnone] at h
    exact Bool.noConfusion h
  · have hmem : m ∈ marksOn (LineTable.ofText text)
        (marksFrom locate 1 (anchorOffsets (LineTable.ofText text) bs)) n := by
      rw [← marksOn_marks locate hn, hm]
      exact List.mem_singleton_self m
    obtain ⟨hmem, hline⟩ := List.mem_filter.mp hmem
    obtain ⟨b, hb, hof⟩ := mem_marks hparse hmem
    rw [decide_eq_true_eq, hof.line] at hline
    refine ⟨hn, m, b, hb, hof, hline, List.mem_cons_of_mem _ hmem, hm, hid, ?_⟩
    cases hcode : b.shape.isCode with
    | true =>
        simp only [labelling, List.any_eq_true]
        exact ⟨b, hb, by simp [hcode, hline]⟩
    | false =>
        simp only [labelling, List.any_eq_false]
        intro c hc
        by_cases hfirst : c.first = b.first
        · rw [hsep.isCode_eq hparse hb hc hof.isQuoted hfirst, hcode]
          simp
        · simp [hline ▸ hfirst]

/-- The label is as far to the right as its line, or at the start if it is flush. -/
lemma Separable.sets {out : Text} (hout : segments out = withLabels (LineTable.ofText text)
      (marks (LineTable.ofText text) bs locate) 0 (segments text))
    (h : (labelling text bs locate).above n = true) :
    (labelling text bs locate).Sets n ((documentLines text).at n)
      ((documentLines out).at ((labelling text bs locate).top n)) := by
  obtain ⟨hn, m, b, hb, hof, hfirst, hm, hone, hid, hflush⟩ := hsep.of_above hparse locate h
  have hplain := marks_isPlain hparse hm
  have hfilled := blockEvents_filled (indent_documentLines text) (parse_mem hparse hb)
  have hlt := parse_first_lt hparse b hb
  rw [hfirst] at hfilled hlt
  have hlabel : (documentLines out).at ((labelling text bs locate).top n) =
      m.labelLine (LineTable.ofText text) := by
    rw [Lines.at, List.getD_eq_getElem?_getD,
      (hsep.places hparse locate).label_top hout hplain hlt h hone]
    rfl
  rw [hlabel]
  refine ⟨hid ▸ hplain.isLabel, ?_, fun _ => indent_documentLines text n, hfilled,
    head_of_unquoted (hfirst ▸ hof.isQuoted)⟩
  rw [hplain.indent, hof.indent, hflush]
  split_ifs
  · rfl
  · rw [indent_of_filled hfilled, hfirst]

/-- The lines of a document with labels are woven. -/
lemma Separable.woven {out : Text} (hout : segments out = withLabels (LineTable.ofText text)
      (marks (LineTable.ofText text) bs locate) 0 (segments text)) (cut : Nat)
    (hcut : (documentLines text).length < cut) :
    Woven (labelling text bs locate) cut 0 (documentLines text).length (documentLines text)
      (documentLines out) where
  line n _ _ := (hsep.places hparse locate).line hout n
  sets n _ _ h := hsep.sets hparse locate hout h
  ruled n _ _ h hbar := by
    obtain ⟨-, m, b, hb, hof, hfirst, -⟩ := hsep.of_above hparse locate h
    exact Bool.eq_false_iff.mpr fun hrule =>
      hsep.rules b hb hof.takes hof.isQuoted (by omega) (by rw [hfirst]; exact ⟨hbar, hrule⟩)
  bare n _ _ _ hbare _ hbar := Bool.eq_false_iff.mpr fun hrule => hbare ⟨hbar, hrule⟩
  plain _ _ _ h := h
  feedless := feedless_documentLines text
  edge hle := by omega

/-- Each label of a document is above the first line of a block. -/
lemma Separable.tame (past : Nat) :
    (labelling text bs locate).Tame 1 past (blockEvents (documentLines text)) where
  begins n _ _ h := by
    obtain ⟨-, m, b, hb, hof, hfirst, -, -, -, hflush⟩ := hsep.of_above hparse locate h
    refine ⟨b, parse_mem hparse hb, hfirst, by rw [hflush], fun hcode => ?_⟩
    exact hsep.code b hb (hflush ▸ hcode) hof.isQuoted
  items b hb hitem h := by
    obtain ⟨-, m, c, hc, hof, hfirst, -⟩ := hsep.of_above hparse locate h
    exact hsep.items b (mem_blocks.mpr hb) hitem (hfirst ▸ hof.isQuoted)
  headings b hb := hsep.headings b (mem_blocks.mpr hb)

/-- The labels in front of a document are not indented far enough to be code. -/
lemma Separable.front {out : Text} (hout : segments out = withLabels (LineTable.ofText text)
      (marks (LineTable.ofText text) bs locate) 0 (segments text)) {i : Nat} (hm :
      (marksOn (LineTable.ofText text) (marks (LineTable.ofText text) bs locate) 0)[i]? = some m) :
    IsLabel m.id ((documentLines out).at i) ∧ 0 ≤ ((documentLines out).at i).indent ∧
      ((documentLines out).at i).indent < 4 := by
  obtain ⟨hmem, hline⟩ := List.mem_filter.mp (List.mem_of_getElem? hm)
  have hplain := marks_isPlain hparse hmem
  have hlabel : (documentLines out).at i = m.labelLine (LineTable.ofText text) := by
    rw [Lines.at, List.getD_eq_getElem?_getD,
      (hsep.places hparse locate).label_front hout hplain hm]
    rfl
  rw [hlabel, hplain.indent]
  refine ⟨hplain.isLabel, Int.natCast_nonneg _, ?_⟩
  rcases List.mem_cons.mp hmem with rfl | hmem
  · rw [(startMark_place text).2]
    decide
  · obtain ⟨b, hb, hof⟩ := mem_marks hparse hmem
    rw [decide_eq_true_eq, hof.line] at hline
    have hevent := parse_mem hparse hb
    rw [hof.indent]
    split_ifs with hcode
    · decide
    · have hfilled := blockEvents_filled (indent_documentLines text) hevent
      rw [← indent_of_filled hfilled, hline]
      by_contra hfar
      exact hcode (blockEvents_isCode (indent_documentLines text) hevent hline (by omega))

end Separable

/-! ### The blocks of a document with labels -/

section Count

variable {table : LineTable} {ms : List Mark} {m : Mark} {n k : Nat}

/-- The number of labels above the lines in front of a line. -/
def labelsBefore (table : LineTable) (ms : List Mark) (n : Nat) : Nat :=
  (ms.filter fun m => m.line table < n).length

variable (hsorted : ms.Pairwise fun m m' => m.line table ≤ m'.line table)
include hsorted

/-- The marks of the first line are in front. -/
lemma marksOn_zero_initial : marksOn table ms 0 <+: ms := by
  have hfirst : marksOn table ms 0 = ms.filter fun m => m.line table < 1 := by
    rw [marksOn]
    exact List.filter_congr fun m _ => by simp
  rw [hfirst, ← takeWhile_eq_filter]
  · exact List.takeWhile_prefix _
  · refine hsorted.imp fun {m m'} hle hm' => ?_
    rw [decide_eq_true_eq] at hm' ⊢
    omega

lemma labelsBefore_succ (n : Nat) : labelsBefore table ms (n + 1) =
    labelsBefore table ms n + (marksOn table ms n).length := by
  rw [labelsBefore, labelsBefore, ← filter_append_marksOn n hsorted, List.length_append]

/-- A mark comes behind those on the lines in front, and in front of those on the lines behind. -/
lemma labelsBefore_bounds (hm : ms[k]? = some m) :
    labelsBefore table ms (m.line table) ≤ k ∧ k < labelsBefore table ms (m.line table + 1) := by
  obtain ⟨hk, rfl⟩ := List.getElem?_eq_some_iff.mp hm
  have hsplit : ms = ms.take k ++ ms[k] :: ms.drop (k + 1) := by
    rw [← List.drop_eq_getElem_cons hk, List.take_append_drop]
  have hlength : (ms.take k).length = k := by rw [List.length_take, Nat.min_eq_left hk.le]
  rw [hsplit] at hsorted
  obtain ⟨-, hbehind, hfront⟩ := List.pairwise_append.mp hsorted
  have hbehind := (List.pairwise_cons.mp hbehind).1
  have hnone :
      (ms[k] :: ms.drop (k + 1)).filter (fun m => m.line table < ms[k].line table) = [] := by
    refine List.filter_eq_nil_iff.mpr fun m hm => ?_
    rw [decide_eq_true_eq, not_lt]
    rcases List.mem_cons.mp hm with rfl | hm
    · exact le_rfl
    · exact hbehind m hm
  have hall : (ms.take k).filter (fun m => m.line table < ms[k].line table + 1) = ms.take k := by
    refine List.filter_eq_self.mpr fun m hm => ?_
    have := hfront m hm _ List.mem_cons_self
    rw [decide_eq_true_eq]
    omega
  rw [labelsBefore, labelsBefore]
  generalize ms[k] = mark at hsplit hnone hall
  rw [hsplit, List.filter_append, List.filter_append, hnone, hall, List.length_append,
    List.length_append, hlength, List.filter_cons_of_pos (by simp), List.length_cons]
  refine ⟨?_, by omega⟩
  have hle := List.length_filter_le (fun m => decide (m.line table < mark.line table)) (ms.take k)
  simp only [List.length_nil]
  omega

variable {s : Labelling} (h : Places table ms s)
include h

/-- A line is behind the lines in front of it, their labels and its own. -/
lemma Places.pos_eq (n : Nat) : s.pos n = n + labelsBefore table ms (n + 1) := by
  induction n with
  | zero =>
      have hnone : labelsBefore table ms 0 = 0 := by simp [labelsBefore]
      have htop : s.top 0 = s.front := rfl
      rw [labelsBefore_succ hsorted, hnone, Labelling.pos_of_not_above h.zero, htop, h.front]
      omega
  | succ n ih =>
      have hlength := h.length_marksOn (show 0 < n + 1 by omega)
      rw [labelsBefore_succ hsorted, hlength, Labelling.pos, s.top_succ, ih]
      omega

/-- What is behind the first line is behind the lines in front of it and their labels. -/
lemma Places.top_eq (hn : 0 < n) : s.top n = n + labelsBefore table ms n := by
  obtain ⟨n, rfl⟩ := Nat.exists_eq_succ_of_ne_zero hn.ne'
  rw [Nat.succ_eq_add_one, s.top_succ, h.pos_eq hsorted]
  omega

/-- The place of a line is not that of a label. -/
lemma Places.pos_ne (hm : ms[k]? = some m) : s.pos n ≠ m.line table + k := by
  obtain ⟨hle, hlt⟩ := labelsBefore_bounds hsorted hm
  have hmono : ∀ a b, a ≤ b → labelsBefore table ms a ≤ labelsBefore table ms b := by
    intro a b hab
    refine (List.monotone_filter_right ms fun m hm => ?_).length_le
    rw [decide_eq_true_eq] at hm ⊢
    omega
  rw [h.pos_eq hsorted]
  rcases lt_or_ge n (m.line table) with hn | hn
  · have := hmono (n + 1) (m.line table) hn
    omega
  · have := hmono (m.line table + 1) (n + 1) (by omega)
    omega

end Count

/-- The block is the line of a label: raw HTML behind the lines in front of its mark and the labels
of the marks in front. -/
def isLabelOf (text : Text) (ms : List Mark) (b : Block) : Bool :=
  ms.zipIdx.any fun (m, k) => b.first == m.line (LineTable.ofText text) + k &&
    match b.shape with
    | .html body => body.dropWhile isBlank == labelDirective m.id
    | _ => false

/-- The block with its lines where they are below the labels of marks. -/
def belowLabels (text : Text) (ms : List Mark) (b : Block) : Block :=
  { b with
    first := b.first + labelsBefore (LineTable.ofText text) ms (b.first + 1)
    past := b.past + labelsBefore (LineTable.ofText text) ms b.past }

section Leaves

variable {text : Text} {ms : List Mark} {m : Mark} {b : Block} {k : Nat}

lemma isLabelOf_of_label (hm : ms[k]? = some m)
    (h : IsLabelAt (m.line (LineTable.ofText text) + k) m.id b) : isLabelOf text ms b = true := by
  obtain ⟨hfirst, blanks, hblanks, hshape⟩ := h
  obtain ⟨rest, hrest⟩ := labelLine_cons m.id
  rw [isLabelOf, List.any_eq_true]
  refine ⟨(m, k), List.mem_zipIdx_iff_getElem?.mpr hm, ?_⟩
  rw [hshape]
  simp only [hfirst, beq_self_eq_true, Bool.true_and, beq_iff_eq]
  rw [List.dropWhile_append_of_pos hblanks, labelDirective_eq, hrest, List.cons_append,
    List.dropWhile_cons_of_neg (by decide)]

variable {s : Labelling} (h : Places (LineTable.ofText text) ms s)
variable (hsorted : ms.Pairwise fun m m' =>
  m.line (LineTable.ofText text) ≤ m'.line (LineTable.ofText text))
include h hsorted

lemma isLabelOf_moveBlock (b : Block) : isLabelOf text ms (s.moveBlock b) = false := by
  rw [isLabelOf, List.any_eq_false]
  rintro ⟨m, k⟩ hmem
  have hne : s.pos b.first ≠ m.line (LineTable.ofText text) + k :=
    h.pos_ne hsorted (List.mem_zipIdx_iff_getElem?.mp hmem)
  simp [Labelling.moveBlock, hne]

lemma moveBlock_eq (hpast : 0 < b.past) : s.moveBlock b = belowLabels text ms b := by
  rw [Labelling.moveBlock, belowLabels, h.pos_eq hsorted, h.top_eq hsorted hpast]

/-- The names of the labels in front. -/
def frontName (table : LineTable) (ms : List Mark) (i : Nat) : Text :=
  ((marksOn table ms 0)[i]?.map Mark.id).getD []

/-- The block of a label is one among the blocks of the document with labels. -/
lemma isLabelOf_of_isLabelIn (hb : s.IsLabelIn (frontName (LineTable.ofText text) ms) b) :
    isLabelOf text ms b = true := by
  rcases hb with ⟨n, habove, hfirst, hbody⟩ | ⟨i, hi, hat⟩
  · have hn : 0 < n := by
      refine Nat.pos_of_ne_zero ?_
      rintro rfl
      rw [h.zero] at habove
      exact Bool.noConfusion habove
    rcases h.above n hn with ⟨-, hnone⟩ | ⟨m, hone, -, hid⟩
    · rw [hnone] at habove
      exact Bool.noConfusion habove
    · have hmem : m ∈ marksOn (LineTable.ofText text) ms n := hone ▸ List.mem_singleton_self m
      obtain ⟨hmem, hline⟩ := List.mem_filter.mp hmem
      rw [decide_eq_true_eq] at hline
      obtain ⟨k, hk⟩ := List.mem_iff_getElem?.mp hmem
      obtain ⟨hle, hlt⟩ := labelsBefore_bounds hsorted hk
      rw [hline] at hle hlt
      rw [labelsBefore_succ hsorted, hone, List.length_singleton] at hlt
      refine isLabelOf_of_label hk ⟨?_, hid ▸ hbody⟩
      rw [hfirst, h.top_eq hsorted hn, hline]
      omega
  · rw [h.front] at hi
    have hm := List.getElem?_eq_getElem hi
    have hline := (List.mem_filter.mp (List.getElem_mem hi)).2
    rw [decide_eq_true_eq] at hline
    have hk : ms[i]? = some (marksOn (LineTable.ofText text) ms 0)[i] :=
      List.prefix_iff_getElem?.mp (marksOn_zero_initial hsorted) i hi
    refine isLabelOf_of_label hk ?_
    rw [frontName, hm] at hat
    rw [hline, Nat.zero_add]
    exact hat

end Leaves

section Document

variable {text out : Text} {bs : List Block}

lemma marks_lines (locate : Nat → EditorPosition) (hparse : parse text = .ok bs) :
    (marks (LineTable.ofText text) bs locate).Pairwise fun m m' =>
      m.line (LineTable.ofText text) ≤ m'.line (LineTable.ofText text) :=
  (marks_pairwise (LineTable.ofText text) bs locate).imp_of_mem fun hm hm' hle =>
    (marks_onLine locate hparse _ hm).line_le (marks_onLine locate hparse _ hm') hle

/-- The events of a document with labels are those of the document, and the labels. -/
lemma Separable.follows (hparse : parse text = .ok bs) (hsep : Separable text bs)
    (locate : Nat → EditorPosition)
    (hout : segments out = withLabels (LineTable.ofText text)
      (marks (LineTable.ofText text) bs locate) 0 (segments text)) :
    Follows (labelling text bs locate)
      ((labelling text bs locate).IsLabelIn
        (frontName (LineTable.ofText text) (marks (LineTable.ofText text) bs locate)))
      (documentEvents text) (documentEvents out) := by
  -- no label is above the line behind the last one
  have hlast : (labelling text bs locate).above (documentLines text).length = false := by
    refine Bool.eq_false_iff.mpr fun habove => ?_
    obtain ⟨-, m, b, hb, -, hfirst, -⟩ := hsep.of_above hparse _ habove
    have hfilled := blockEvents_filled (indent_documentLines text) (parse_mem hparse hb)
    rw [hfirst, Lines.at_of_le le_rfl] at hfilled
    exact Bool.noConfusion hfilled
  have hlength := (hsep.places hparse locate).length hout
    (fun m hm => marks_isPlain hparse hm) hlast
  refine blockEvents_woven (hsep.woven hparse locate hout) hlength rfl (indent_documentLines text)
    (fun i hi => ?_) (hsep.tame hparse locate)
  have hm := List.getElem?_eq_getElem (show i < (marksOn (LineTable.ofText text)
    (marks (LineTable.ofText text) bs locate) 0).length from hi)
  rw [frontName, hm]
  exact hsep.front hparse locate hout hm

/-- A leaf of a document has a line. -/
lemma past_pos_of_leaf (hparse : parse text = .ok bs) {b : Block} (hb : b ∈ bs)
    (hleaf : b.shape.isContainer = false) : 0 < b.past := by
  obtain ⟨past, hspans⟩ := blockEvents_spans (documentLines text)
  have := (hspans.bounds (parse_mem hparse hb) hleaf).2.1
  omega

/-- The leaf blocks of a document with labels are those of the document, and the labels. -/
lemma Separable.leaves (hparse : parse text = .ok bs) (hsep : Separable text bs)
    (locate : Nat → EditorPosition)
    (hout : segments out = withLabels (LineTable.ofText text)
      (marks (LineTable.ofText text) bs locate) 0 (segments text)) :
    ∃ bs', parse out = .ok bs' ∧
      bs'.filter (fun b => !b.shape.isContainer &&
          !isLabelOf text (marks (LineTable.ofText text) bs locate) b) =
        (bs.filter (!·.shape.isContainer)).map
          (belowLabels text (marks (LineTable.ofText text) bs locate)) := by
  have hplaces := hsep.places hparse locate
  have hsorted := marks_lines locate hparse
  have hfollows := hsep.follows hparse locate hout
  have hpast := fun b => past_pos_of_leaf hparse (b := b)
  rw [parse] at hparse
  split_ifs at hparse with hshort
  obtain rfl := Except.ok.inj hparse
  refine ⟨blocksOf (documentEvents out), ?_, ?_⟩
  · rw [parse, hfollows.contains_shortLine, if_neg hshort]
  · have hblocks := hfollows.blocksOf fun b hb => by
      rcases hb with ⟨n, -, -, blanks, -, hshape⟩ | ⟨i, -, -, blanks, -, hshape⟩ <;>
        rw [hshape] <;> rfl
    rw [hblocks.leaves (fun b => isLabelOf_of_isLabelIn hplaces hsorted)
      (isLabelOf_moveBlock hplaces hsorted)]
    refine List.map_congr_left fun b hb => ?_
    obtain ⟨hb, hleaf⟩ := List.mem_filter.mp hb
    exact moveBlock_eq hplaces hsorted (hpast b hb (by simpa using hleaf))

end Document

/-- Labels change nothing around them: in the document with labels, the leaf blocks other than those
of labels are the leaf blocks of the document, with their shapes, texts and depths, on their lines
below the labels. -/
theorem injectAnchors_leaves {text : Text} {bs : List Block} (hparse : parse text = .ok bs)
    (hsep : Separable text bs) :
    ∃ out anchors ms bs', injectAnchors text = .ok (out, anchors) ∧ anchors = ms.map Mark.anchor ∧
      Labelled text out ms ∧ parse out = .ok bs' ∧
      bs'.filter (fun b => !b.shape.isContainer && !isLabelOf text ms b) =
        (bs.filter (!·.shape.isContainer)).map (belowLabels text ms) := by
  have hlabelled := labelled_splice (LineTable.ofText text).position hparse
  obtain ⟨bs', hparse', hleaves⟩ := hsep.leaves hparse _ hlabelled.lines
  exact ⟨_, _, _, bs', injectAnchorsBy_of_parse _ hparse, rfl, hlabelled, hparse', hleaves⟩

/-- A fence in a list, a paragraph and code: the fence keeps its text and depth below its label. -/
theorem injectAnchors_leaves_list :
    let text : Text := "- a\n\n  ~~~\n  x\n  ~~~\n\nb\n\n    y\n".toList
    let bs : List Block :=
      [⟨.bulletList, 0, 6, 0⟩, ⟨.item, 0, 6, 1⟩, ⟨.paragraph "a".toList, 0, 1, 2⟩,
      ⟨.fence "~~~".toList [] "x\n".toList, 2, 5, 2⟩, ⟨.paragraph "b".toList, 6, 7, 0⟩,
      ⟨.code "y\n".toList, 8, 9, 0⟩]
    parse text = .ok bs ∧ Separable text bs ∧
      ∃ out anchors ms bs', injectAnchors text = .ok (out, anchors) ∧ anchors = ms.map Mark.anchor ∧
        Labelled text out ms ∧ parse out = .ok bs' ∧
        bs'.filter (fun b => !b.shape.isContainer && !isLabelOf text ms b) =
          (bs.filter (!·.shape.isContainer)).map (belowLabels text ms) := by
  intro text bs
  have hparse : parse text = .ok bs := by decide +kernel
  have hsep : Separable text bs := by decide +kernel
  exact ⟨hparse, hsep, injectAnchors_leaves hparse hsep⟩

/-- What the other conditions keep out. Behind its label the item is the head of a table. With the
rule moved away the line in front of it goes on with a paragraph. And what looks like a definition
without a destination ends at the label, where its title would follow. -/
example :
    let depths (text : Text) := (parse text).toOption.map fun bs =>
      (bs.filter fun b => match b.shape with
        | .html _ => false
        | shape => !shape.isContainer).map Block.depth
    let labelled (text : Text) := (injectAnchors text).toOption.bind fun r => depths r.1
    (depths "- x\n- a | b\n-|-\n".toList = some [2, 2] ∧
      labelled "- x\n- a | b\n-|-\n".toList = some [2, 0]) ∧
    (depths "- - - a\n$$ | $$\n      -|-\n".toList = some [6, 0, 0] ∧
      labelled "- - - a\n$$ | $$\n      -|-\n".toList = some [6, 0]) ∧
    depths "[x]:\n===\n\"\" foo\n".toList = some [0, 0] ∧
      labelled "[x]:\n===\n\"\" foo\n".toList = some [0] := by
  decide +kernel

end Galley
