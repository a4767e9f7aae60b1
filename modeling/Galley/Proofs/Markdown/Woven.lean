import Galley.Proofs.Labels
import Galley.Proofs.Markdown.Openings
import Galley.Proofs.Pieces
import Galley.Proofs.Trimming
import Mathlib.Tactic

/-!
Lines with labels set between them, as the block structure sees them.

* `Labelling`: the lines that have a label above them; `Labelling.top`, `Labelling.pos`: where such
  a label is, and where the line itself is;
* `IsLabel`: the line of a label; `blockAt_label`: it is a block of raw HTML, wherever it stands;
* `Woven`: lines with the labels of a labelling, from a line on and up to a cut;
* `Woven.tableHead`, `Woven.endsParagraph`, `Woven.endsDefinition`: what begins at a line is the
  same among the labels.
-/

namespace Galley.Markdown

/-! ### Places -/

/-- Where labels are set: `front` of them in front of all lines, and one above each line that is
marked so, with a name and with the indentation of the line or, if it is flush, with none. A bare
line is no head of a table, whatever block it begins, and a plain one has no bracket that opens. -/
structure Labelling where
  front : Nat
  above : Nat → Bool
  id : Nat → Text
  flush : Nat → Bool
  bare : Nat → Prop
  plain : Nat → Prop

namespace Labelling

variable (s : Labelling)

/-- The place behind the lines in front of a line, where its label is if it has one. -/
def top : Nat → Nat
  | 0 => s.front
  | n + 1 => top n + (if s.above n then 2 else 1)

/-- The place of a line. -/
def pos (n : Nat) : Nat := s.top n + (if s.above n then 1 else 0)

/-- No line from `first` to before `past` has a label. -/
def Quiet (first past : Nat) : Prop := ∀ n, first ≤ n → n < past → s.above n = false

variable {s} {m n first past : Nat}

lemma top_succ (n : Nat) : s.top (n + 1) = s.pos n + 1 := by
  rw [top, pos]
  split_ifs <;> rfl

lemma pos_of_above (h : s.above n = true) : s.pos n = s.top n + 1 := by rw [pos, if_pos h]

lemma pos_of_not_above (h : s.above n = false) : s.pos n = s.top n := by
  rw [pos, h]
  rfl

lemma top_add_one (h : s.above n = false) : s.top n + 1 = s.top (n + 1) := by
  rw [top_succ, pos_of_not_above h]

lemma top_le_pos (n : Nat) : s.top n ≤ s.pos n := Nat.le_add_right _ _

lemma pos_lt_top (h : m < n) : s.pos m < s.top n := by
  induction n with
  | zero => omega
  | succ n ih =>
      rw [top_succ]
      rcases Nat.lt_succ_iff_lt_or_eq.mp h with hlt | rfl
      · have := ih hlt
        have := s.top_le_pos n
        omega
      · exact Nat.lt_succ_self _

lemma top_mono (h : m ≤ n) : s.top m ≤ s.top n := by
  rcases h.lt_or_eq with hlt | rfl
  · exact (s.top_le_pos m).trans (pos_lt_top hlt).le
  · exact le_rfl

lemma top_monotone (s : Labelling) : Monotone s.top := fun _ _ h => top_mono h

lemma top_lt_top (h : m < n) : s.top m < s.top n := (s.top_le_pos m).trans_lt (pos_lt_top h)

lemma lt_of_top_lt (h : s.top m < s.top n) : m < n := by
  by_contra hle
  have := s.top_mono (Nat.le_of_not_lt hle)
  omega

lemma pos_lt_pos (h : m < n) : s.pos m < s.pos n := (pos_lt_top h).trans_le (s.top_le_pos n)

lemma pos_injective : Function.Injective s.pos := by
  intro m n h
  rcases lt_trichotomy m n with hlt | heq | hlt
  · exact absurd h (pos_lt_pos hlt).ne
  · exact heq
  · exact absurd h (pos_lt_pos hlt).ne'

/-- The place of a line is not that of a label. -/
lemma pos_ne_top (h : s.above m = true) : s.pos n ≠ s.top m := by
  have hm := pos_of_above h
  rcases lt_or_ge m n with hlt | hle
  · have := s.pos_lt_pos hlt
    omega
  · rcases hle.lt_or_eq with hlt | rfl
    · exact (pos_lt_top hlt).ne
    · omega

lemma Quiet.mono {first' past' : Nat} (h : s.Quiet first past) (hfirst : first ≤ first')
    (hpast : past' ≤ past) : s.Quiet first' past' :=
  fun n hn hlt => h n (hfirst.trans hn) (hlt.trans_le hpast)

/-- Lines without labels between them stay together. -/
lemma Quiet.pos_add (h : s.Quiet (first + 1) past) {k : Nat} (hk : first + k < past) :
    s.pos (first + k) = s.pos first + k := by
  induction k with
  | zero => rfl
  | succ k ih =>
      have hquiet := h (first + (k + 1)) (by omega) hk
      rw [pos_of_not_above hquiet, ← Nat.add_assoc, top_succ, ih (by omega)]
      omega

lemma Quiet.top_eq (h : s.Quiet (first + 1) past) (hlt : first < past) :
    s.top past = s.pos first + (past - first) := by
  obtain ⟨k, rfl⟩ : ∃ k, past = first + k + 1 := ⟨past - first - 1, by omega⟩
  rw [top_succ, h.pos_add (by omega)]
  omega

end Labelling

/-! ### The line of a label -/

/-- The line is that of a label with a name. -/
structure IsLabel (id : Text) (l : Line) : Prop where
  name : ∀ c ∈ id, c.isAlphanum = true ∨ c = '-'
  text : ∃ blanks : Text, (∀ c ∈ blanks, isBlank c = true) ∧ l.text = blanks ++ labelLine id ∧
    l.shift = blanks.length
  ended : l.ended = true

section Label

variable {id : Text} {l : Line}

lemma IsLabel.content_eq (h : IsLabel id l) : l.content = labelLine id := by
  obtain ⟨blanks, -, htext, hshift⟩ := h.text
  rw [Line.content, htext, hshift, List.drop_left]

lemma labelLine_cons (id : Text) : ∃ rest, labelLine id = '<' :: '!' :: '-' :: '-' :: rest := by
  unfold labelLine
  simp

lemma IsLabel.content_cons (h : IsLabel id l) :
    ∃ rest, l.content = '<' :: '!' :: '-' :: '-' :: rest := by
  rw [h.content_eq]
  exact labelLine_cons id

lemma IsLabel.filled (h : IsLabel id l) : l.isVoid = false := by
  obtain ⟨rest, hrest⟩ := h.content_cons
  rw [Line.isVoid, hrest]
  rfl

/-- A character that is in no name and not around one is not in the line. -/
lemma notMem_labelLine (h : ∀ c ∈ id, c.isAlphanum = true ∨ c = '-') {c : Char}
    (hname : c.isAlphanum = false ∧ c ≠ '-') (haround : c ∉ labelLine []) : c ∉ labelLine id := by
  unfold labelLine at haround ⊢
  simp only [List.append_nil, List.mem_append, not_or] at haround ⊢
  refine ⟨⟨haround.1, fun hc => ?_⟩, haround.2⟩
  rcases h c hc with hc | hc
  · exact Bool.false_ne_true (hname.1 ▸ hc)
  · exact hname.2 hc

lemma IsLabel.notMem_bar (h : IsLabel id l) : '|' ∉ l.content := by
  rw [h.content_eq]
  exact notMem_labelLine h.name (by decide) (by decide)

lemma IsLabel.htmlKind (h : IsLabel id l) : htmlKind? l.content = some .comment := by
  obtain ⟨rest, hrest⟩ := h.content_cons
  rw [hrest]
  simp [htmlKind?, namedBy, verbatimNames, List.isPrefixOf, smallLetter]

lemma IsLabel.endsAt (h : IsLabel id l) : HtmlKind.comment.endsAt l.content = true := by
  rw [h.content_eq, HtmlKind.endsAt]
  refine occursIn_eq_true.mpr ⟨"<!--raw-typst #label(\"".toList ++ id ++ "\") ".toList, [], ?_⟩
  unfold labelLine
  simp

lemma IsLabel.endsMath (h : IsLabel id l) : endsMath l.content = false := by
  have hreverse : ∃ front, l.content.reverse = '>' :: front := by
    rw [h.content_eq]
    unfold labelLine
    simp
  obtain ⟨front, hfront⟩ := hreverse
  have hspace : isSpace '>' = false := by decide
  have htrim : ∃ body, (Text.trim l.content).reverse = '>' :: body := by
    obtain ⟨rest, hrest⟩ := h.content_cons
    have hdrop : l.content.dropWhile isSpace = l.content := by
      rw [hrest, List.dropWhile_cons_of_neg (by decide)]
    refine ⟨front, ?_⟩
    rw [Text.trim, trimBy, dropEndWhile, hdrop, hfront, List.reverse_reverse,
      List.dropWhile_cons_of_neg (by simp [hspace])]
  obtain ⟨body, hbody⟩ := htrim
  have hsuffix : ['$', '$'].isSuffixOf (Text.trim l.content) = false := by
    rw [List.isSuffixOf, hbody]
    rfl
  rw [Markdown.endsMath, hsuffix, Bool.false_or, endsLabelled, hfront,
    List.dropWhile_cons_of_neg (by simp [hspace])]
  rfl

variable {ctx : Context} (h : IsLabel id l)
include h

lemma IsLabel.orderedMarker : orderedMarker? l.content = none := by
  obtain ⟨rest, hrest⟩ := h.content_cons
  rw [hrest]
  rfl

lemma IsLabel.bulletMarker : bulletMarker? l.content = none := by
  obtain ⟨rest, hrest⟩ := h.content_cons
  rw [hrest]
  rfl

lemma IsLabel.isTableRule : isTableRule l.content = false := by
  obtain ⟨rest, hrest⟩ := h.content_cons
  rw [hrest]
  rfl

lemma IsLabel.isUnderline : isUnderline l.content = false := by
  obtain ⟨rest, hrest⟩ := h.content_cons
  rw [hrest]
  rfl

lemma IsLabel.opensQuote : opensQuote ctx l = false := by
  obtain ⟨rest, hrest⟩ := h.content_cons
  rw [Markdown.opensQuote, hrest]
  simp

lemma IsLabel.opensBreak : opensBreak ctx l = false := by
  obtain ⟨rest, hrest⟩ := h.content_cons
  rw [Markdown.opensBreak, hrest]
  simp [isThematicBreak]

lemma IsLabel.listOpening (behind : Bool) : listOpening? ctx l behind = none := by
  rw [listOpening?, listMarker?, h.orderedMarker, h.bulletMarker]
  simp

lemma IsLabel.opensHtml (hcode : ctx.isCode l = false) : opensHtml ctx l = true := by
  rw [Markdown.opensHtml, h.htmlKind, hcode]
  rfl

lemma IsLabel.endsQuote (hcode : ctx.isCode l = false) : endsQuote ctx l = true := by
  rw [Markdown.endsQuote, h.opensHtml hcode]
  simp

lemma IsLabel.nextMarker (marker : ListMarker) : nextMarker? ctx l marker = none := by
  rw [nextMarker?, h.orderedMarker, h.bulletMarker]
  split_ifs <;> rfl

end Label

/-- A table does not begin above the line of a label, and not at it. -/
lemma tableHead_label {id : Text} {ctx : Context} {lines : Lines} {line stop : Nat}
    (h : IsLabel id (lines.at line) ∨ IsLabel id (lines.at (line + 1))) :
    tableHead? ctx lines line stop = none := by
  rw [tableHead?]
  rcases h with h | h
  · have hbar : (Text.unpad (lines.at line).content).contains '|' = false := by
      rw [List.contains_eq_mem, decide_eq_false_iff_not]
      exact fun hmem => h.notMem_bar (trimBy_subset _ _ hmem)
    rw [hbar]
    simp
  · simp [h.isTableRule]

/-- Where the line of a label is no code, it is a block of raw HTML. -/
lemma blockAt_label (inner items : Reader) {id : Text} {ctx : Context} {lines : Lines}
    {line : Nat} (stop : Nat) (h : IsLabel id (lines.at line))
    (hcode : ctx.isCode (lines.at line) = false) :
    blockAt inner items ctx lines line stop =
      foundBlock ctx (.html (bodyText ctx.indent true [lines.at line])) line (line + 1) := by
  obtain ⟨rest, hrest⟩ := h.content_cons
  have hlt : line < lines.length := Lines.lt_length (by rw [hrest]; exact List.cons_ne_nil _ _)
  have hpart : lines.between line (line + 1) = [lines.at line] := by
    rw [Lines.between, Nat.add_sub_cancel_left, List.take_one, List.head?_drop,
      List.getElem?_eq_getElem hlt, Lines.at, List.getD_eq_getElem?_getD,
      List.getElem?_eq_getElem hlt]
    rfl
  have hshort : endsShort ctx [lines.at line] = false := by
    simp [endsShort, h.ended]
  have htable : tableRule ctx lines line stop = none := by
    rw [tableRule, tableHead_label (Or.inl h), Option.map_none]
  have hfence : fenceOpening? (lines.at line).content = none := by
    rw [hrest]
    simp [fenceOpening?]
  have hmath : ['$', '$'].isPrefixOf (lines.at line).content = false := by
    rw [hrest]
    rfl
  have hnote : noteLabel? (lines.at line).content = none := by
    rw [hrest]
    rfl
  have hdefinition : definitionRule ctx lines line stop = none := by
    rw [definitionRule, hcode, Line.contentWithBreak, hrest]
    rfl
  rw [blockAt, htable, codeRule, hcode, mathRule, hcode, hmath, fenceRule, hcode, hfence, quoteRule,
    h.opensQuote, breakRule, h.opensBreak, listRule, h.listOpening, noteRule, hcode, hnote,
    hdefinition, htmlRule, hcode, h.htmlKind]
  simp [h.endsAt, hpart, hshort]

/-- Columns are cut off from the blanks in front of a content, and not from the content. -/
lemma cutColumns_blanks (base shift indent column passed : Nat) {blanks : Text} {c : Char}
    (cs : Text) (hblanks : ∀ b ∈ blanks, isBlank b = true) (hc : isBlank c = false)
    (hshift : shift ≤ passed + blanks.length) :
    ∃ front : Text, (∀ b ∈ front, isBlank b = true) ∧
      cutColumns base shift indent column passed (blanks ++ c :: cs) = front ++ c :: cs := by
  have hspaces : ∀ n, ∀ b ∈ List.replicate n ' ', isBlank b = true := by
    intro n b hb
    rw [List.eq_of_mem_replicate hb]
    rfl
  induction blanks generalizing column passed with
  | nil =>
      simp only [isBlank, Bool.or_eq_false_iff, beq_eq_false_iff_ne] at hc
      rw [List.nil_append, cutColumns]
      split_ifs with hover htab hspace
      · exact ⟨_, hspaces _, rfl⟩
      · exact absurd htab (by simpa using hc.2)
      · simp only [Bool.or_eq_true, beq_iff_eq, decide_eq_true_eq, List.length_nil] at hspace hshift
        exact absurd hspace (by simp only [hc.1, false_or]; omega)
      · exact ⟨[], by simp, rfl⟩
  | cons b blanks ih =>
      obtain ⟨hb, hrest⟩ := List.forall_mem_cons.mp hblanks
      rw [List.length_cons] at hshift
      have hnext := fun column => ih column (passed + 1) hrest (by omega)
      simp only [isBlank, Bool.or_eq_true, beq_iff_eq] at hb
      rw [List.cons_append, cutColumns]
      split_ifs with hover htab hspace
      · refine ⟨List.replicate (column - indent) ' ' ++ b :: blanks, fun d hd => ?_, by simp⟩
        rcases List.mem_append.mp hd with hd | hd
        · exact hspaces _ d hd
        · exact hblanks d hd
      · exact hnext _
      · exact hnext _
      · simp only [beq_iff_eq] at htab
        rw [hb.resolve_right htab] at hspace
        simp at hspace

/-- What the columns of a container leave of the line of a label is the label behind blanks. -/
lemma IsLabel.body {id : Text} {l : Line} (h : IsLabel id l) (indent : Nat) :
    ∃ blanks : Text, (∀ c ∈ blanks, isBlank c = true) ∧
      bodyText indent true [l] = blanks ++ labelDirective id := by
  obtain ⟨blanks, hblanks, htext, hshift⟩ := h.text
  obtain ⟨rest, hrest⟩ := labelLine_cons id
  obtain ⟨front, hfront, hcut⟩ := cutColumns_blanks l.base l.shift indent 0 0 _ hblanks
    (show isBlank '<' = false by decide) (by rw [hshift]; omega)
  refine ⟨front, hfront, ?_⟩
  rw [bodyText, Line.cut, htext, hrest, hcut, h.ended, labelDirective_eq, hrest, List.append_assoc]
  rfl

/-! ### Woven lines -/

/-- What stands above a line with a label: the line of its label, with the indentation of the line
or, if it is flush, with none. The line has content, and is none of a quote. -/
structure Labelling.Sets (s : Labelling) (n : Nat) (l label : Line) : Prop where
  isLabel : IsLabel (s.id n) label
  indent : label.indent = if s.flush n then 0 else l.indent
  flush : s.flush n = true → 0 ≤ l.indent
  filled : l.isVoid = false
  unquoted : l.content.head? ≠ some '>'

/-- The lines `lines'` are `lines` with labels between them, from the line `first` to before `cut`.
Reading goes on up to `limit` or, where a quote is over at a label, to the cut; the line there has a
label above it, and goes on with a paragraph at most. A line with a label is not the rule of a table
with the line above it; neither is the line behind a bare one, unless that one only goes on with a
paragraph. -/
structure Woven (s : Labelling) (cut first limit : Nat) (lines lines' : Lines) : Prop where
  line : ∀ n, first ≤ n → n < cut → lines'[s.pos n]? = lines[n]?
  sets : ∀ n, first < n → n < cut → s.above n = true →
    s.Sets n (lines.at n) (lines'.at (s.top n))
  ruled : ∀ n, first ≤ n → n + 1 < cut → s.above (n + 1) = true → '|' ∈ (lines.at n).content →
    isTableRule (lines.at (n + 1)).content = false
  bare : ∀ n, first < n → n + 1 < cut → s.above n = true → s.bare n → 0 ≤ (lines.at n).indent →
    '|' ∈ (lines.at n).content → isTableRule (lines.at (n + 1)).content = false
  plain : ∀ n, first ≤ n → n < cut → s.plain n → '[' ∉ (lines.at n).content
  feedless : ∀ n, '\n' ∉ (lines.at n).content
  edge : cut ≤ limit → s.above cut = true ∧ (lines.at cut).isVoid = false ∧
    (lines.at cut).indent < 0 ∧ (lines'.at (s.top cut)).isVoid = false

/-- A container among woven lines: its range ends with that of the lines. -/
def Context.within (s : Labelling) (cut : Nat) (ctx : Context) : Context :=
  { ctx with limit := s.top (min ctx.limit cut) }

section Within

variable {s : Labelling} {cut : Nat} {ctx : Context}

@[simp] lemma within_indent : (ctx.within s cut).indent = ctx.indent := rfl

@[simp] lemma within_depth : (ctx.within s cut).depth = ctx.depth := rfl

@[simp] lemma within_limit : (ctx.within s cut).limit = s.top (min ctx.limit cut) := rfl

@[simp] lemma isCode_within (l : Line) : (ctx.within s cut).isCode l = ctx.isCode l := rfl

@[simp] lemma opensQuote_within (l : Line) :
    opensQuote (ctx.within s cut) l = opensQuote ctx l := rfl

@[simp] lemma opensBreak_within (l : Line) :
    opensBreak (ctx.within s cut) l = opensBreak ctx l := rfl

@[simp] lemma endsQuote_within (l : Line) : endsQuote (ctx.within s cut) l = endsQuote ctx l := rfl

@[simp] lemma continues_within (l : Line) : continues (ctx.within s cut) l = continues ctx l := rfl

end Within

namespace Labelling

variable {s : Labelling} {cut n : Nat}

/-- Behind a line in the range and in front of the cut there is one more place. -/
lemma rest_succ {bound : Nat} (hbound : n < bound) (hcut : n < cut) (h : s.above n = false) :
    s.top (min bound cut) - s.top n = s.top (min bound cut) - s.top (n + 1) + 1 := by
  have := s.pos_lt_top (lt_min hbound hcut)
  rw [top_succ]
  rw [pos_of_not_above h] at this ⊢
  omega

/-- The place of a label counts as well. -/
lemma rest_above {bound : Nat} (hbound : n < bound) (hcut : n < cut) (h : s.above n = true) :
    s.top (min bound cut) - s.top n = s.top (min bound cut) - s.pos n + 1 := by
  have := s.pos_lt_top (lt_min hbound hcut)
  rw [pos_of_above h] at this ⊢
  omega

lemma rest_pos {bound : Nat} (hbound : n < bound) (hcut : n < cut) :
    s.top (min bound cut) - s.pos n = s.top (min bound cut) - s.top (n + 1) + 1 := by
  have := s.pos_lt_top (lt_min hbound hcut)
  rw [top_succ]
  omega

/-- Nothing is left behind the range and at the cut. -/
lemma rest_zero {bound : Nat} (h : bound ≤ n ∨ cut ≤ n) : s.top (min bound cut) - s.top n = 0 := by
  have := s.top_mono (min_le_iff.mpr h)
  omega

end Labelling

section Sets

variable {s : Labelling} {n : Nat} {l label : Line} {ctx : Context} (h : s.Sets n l label)
include h

lemma Labelling.Sets.indent_le : label.indent ≤ l.indent := by
  rw [h.indent]
  split_ifs with hflush
  · exact h.flush hflush
  · exact le_rfl

/-- Where the line is no code, neither is its label. -/
lemma Labelling.Sets.shallow (hcode : ctx.isCode l = false) : ctx.isCode label = false := by
  have := h.indent_le
  simp only [Context.isCode, decide_eq_false_iff_not] at hcode ⊢
  omega

/-- Where the line does not go on with whatever is in front of it, neither does its label. -/
lemma Labelling.Sets.continues (hline : Markdown.continues ctx l = false) :
    Markdown.continues ctx label = false := by
  have hle := h.indent_le
  have hindent := h.indent
  simp only [Markdown.continues, Bool.or_eq_false_iff, decide_eq_false_iff_not] at hline ⊢
  refine ⟨by omega, ?_⟩
  rw [hindent]
  split_ifs
  · simp
  · exact hline.2

end Sets

section Woven

variable {s : Labelling} {cut first n : Nat} {ctx : Context} {lines lines' : Lines}
variable (h : Woven s cut first ctx.limit lines lines')
include h

lemma Woven.at_pos (hfirst : first ≤ n) (hn : n < cut) : lines'.at (s.pos n) = lines.at n := by
  rw [Lines.at, Lines.at, List.getD_eq_getElem?_getD, List.getD_eq_getElem?_getD,
    h.line n hfirst hn]

lemma Woven.at_top (hfirst : first ≤ n) (hn : n < cut) (hquiet : s.above n = false) :
    lines'.at (s.top n) = lines.at n := by
  rw [← Labelling.pos_of_not_above hquiet]
  exact h.at_pos hfirst hn

/-- Where reading comes to a line at or in front of the cut, nothing is left to read, or the line is
there, or its label is. -/
lemma Woven.here (bound : Nat) (hfirst : first < n) (hcut : n ≤ cut) :
    s.top (min bound cut) - s.top n = 0 ∨
      ∃ rest, s.top (min bound cut) - s.top n = rest + 1 ∧ n < cut ∧
        (s.above n = false ∨
          s.above n = true ∧ s.Sets n (lines.at n) (lines'.at (s.top n))) := by
  rcases Nat.eq_zero_or_pos (s.top (min bound cut) - s.top n) with hzero | hpos
  · exact Or.inl hzero
  · have hn := s.lt_of_top_lt (Nat.lt_of_sub_pos hpos)
    refine Or.inr ⟨_, (Nat.succ_pred_eq_of_pos hpos).symm, by omega, ?_⟩
    cases habove : s.above n with
    | true => exact Or.inr ⟨rfl, h.sets n hfirst (by omega) habove⟩
    | false => exact Or.inl rfl

/-- A line without content has no label. -/
lemma Woven.above_of_void (hfirst : first < n) (hn : n < cut) (hvoid : (lines.at n).isVoid = true) :
    s.above n = false := by
  cases habove : s.above n with
  | false => rfl
  | true =>
      have := (h.sets n hfirst hn habove).filled
      rw [hvoid] at this
      exact Bool.noConfusion this

/-- The line at the cut has content. -/
lemma Woven.lt_cut (hn : n ≤ cut) (hlimit : n ≤ ctx.limit) (hvoid : (lines.at n).isVoid = true) :
    n < cut := by
  refine lt_of_le_of_ne hn ?_
  rintro rfl
  have := (h.edge hlimit).2.1
  rw [hvoid] at this
  exact Bool.noConfusion this

/-- The head of a table is found at the same lines: no label comes between it and its rule. -/
lemma Woven.tableHead {bound : Nat} (hbound : bound ≤ ctx.limit) (hfirst : first ≤ n)
    (hn : n < cut) :
    tableHead? (ctx.within s cut) lines' (s.pos n) (s.top (min bound cut)) =
      tableHead? ctx lines n bound := by
  have hplace : s.pos n + 1 = s.top (n + 1) := (Labelling.top_succ n).symm
  have hhead := h.at_pos hfirst hn
  rcases (show n + 1 ≤ cut from hn).lt_or_eq with hlt | hcut
  · cases habove : s.above (n + 1) with
    | true =>
        have hsets := h.sets (n + 1) (by omega) hlt habove
        have hnone : tableHead? ctx lines n bound = none := by
          rw [tableHead?]
          by_cases hbar : '|' ∈ (lines.at n).content
          · simp [h.ruled n hfirst hlt habove hbar]
          · have hrow : (Text.unpad (lines.at n).content).contains '|' = false := by
              rw [List.contains_eq_mem, decide_eq_false_iff_not]
              exact fun hmem => hbar (trimBy_subset _ _ hmem)
            simp only [hrow, Bool.not_false, Bool.or_true, if_true]
        rw [hnone]
        exact tableHead_label (Or.inr (hplace ▸ hsets.isLabel))
    | false =>
        have hrule := h.at_top (n := n + 1) (by omega) hlt habove
        have hiff : s.top (min bound cut) < s.pos n + 2 ↔ bound < n + 2 := by
          have hsucc : s.top (n + 2) = s.pos (n + 1) + 1 := s.top_succ (n + 1)
          rw [Labelling.pos_of_not_above habove] at hsucc
          constructor
          · intro hlt'
            by_contra hle
            have := s.top_mono (show n + 2 ≤ min bound cut by omega)
            omega
          · intro hlt'
            have := s.top_mono (show min bound cut ≤ n + 1 by omega)
            omega
        simp only [tableHead?, hhead, hplace, hrule, hiff, within_indent, isCode_within]
  · -- the rule would be behind the cut, and there it would only go on with a paragraph
    have hshort : s.top (min bound cut) < s.pos n + 2 := by
      have := s.top_mono (show min bound cut ≤ n + 1 by omega)
      omega
    have hnone : tableHead? ctx lines n bound = none := by
      rw [tableHead?]
      by_cases hover : bound < n + 2
      · simp [hover]
      · have := (h.edge (by omega)).2.2.1
        rw [← hcut] at this
        have hout : (lines.at (n + 1)).indent < ctx.indent := by omega
        simp [hout]
    rw [hnone, tableHead?]
    simp [hshort]

/-- The same lines end paragraphs. -/
lemma Woven.endsParagraph {bound : Nat} (hbound : bound ≤ ctx.limit) (hfirst : first ≤ n)
    (hn : n < cut) :
    endsParagraph (ctx.within s cut) lines' (s.pos n) (s.top (min bound cut)) =
      endsParagraph ctx lines n bound := by
  rw [Markdown.endsParagraph, h.tableHead hbound hfirst hn, h.at_pos hfirst hn]
  rfl

lemma Woven.endsParagraph_top {bound : Nat} (hbound : bound ≤ ctx.limit) (hfirst : first ≤ n)
    (hn : n < cut) (hquiet : s.above n = false) :
    Markdown.endsParagraph (ctx.within s cut) lines' (s.top n) (s.top (min bound cut)) =
      Markdown.endsParagraph ctx lines n bound := by
  rw [← Labelling.pos_of_not_above hquiet]
  exact h.endsParagraph hbound hfirst hn

/-- The same lines end link definitions. -/
lemma Woven.endsDefinition {bound : Nat} (hbound : bound ≤ ctx.limit) (hfirst : first ≤ n)
    (hn : n < cut) :
    endsDefinition (ctx.within s cut) lines' (s.pos n) (s.top (min bound cut)) =
      endsDefinition ctx lines n bound := by
  rw [Markdown.endsDefinition, h.tableHead hbound hfirst hn, h.at_pos hfirst hn]
  rfl

end Woven

/-- The line of a label ends a paragraph. -/
lemma endsParagraph_label (ctx : Context) (lines : Lines) (stop : Nat) {id : Text} {line : Nat}
    (h : IsLabel id (lines.at line)) (hcode : ctx.isCode (lines.at line) = false) :
    endsParagraph ctx lines line stop = true := by
  rw [endsParagraph, h.opensHtml hcode]
  simp

/-- The line of a label ends a link definition. -/
lemma endsDefinition_label (ctx : Context) (lines : Lines) (stop : Nat) {id : Text} {line : Nat}
    (h : IsLabel id (lines.at line)) (hcode : ctx.isCode (lines.at line) = false) :
    endsDefinition ctx lines line stop = true := by
  rw [endsDefinition, h.opensHtml hcode]
  simp

end Galley.Markdown
