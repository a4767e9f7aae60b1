import Galley.Markdown.Container
import Mathlib.Tactic

/-!
Where the blocks of a run lie.

* `blocks`, `leaves`: the blocks of events, and those without blocks inside;
* `Spans`: leaf blocks lie between two lines, one behind the other, and none is empty;
* `RunLaw`: a property of runs that single leaves have, and that is kept where runs follow one
  another or are put into a container;
* `Gets`: a rule gets behind its first line, and what it finds in between has the property;
* `Ready`: what holds of a line whenever a block is looked for there;
* `blockAt_gets`, `sequence_gets`, `reader_getting`: so every block and every run has it;
* `blockEvents_spans`: the leaf blocks of a document follow one another.
-/

namespace Galley.Markdown

/-! ### Spans -/

/-- The shape is that of a block with blocks inside. -/
def Shape.isContainer : Shape → Bool
  | .quote => true
  | .bulletList => true
  | .orderedList => true
  | .item => true
  | _ => false

/-- The shape is that of a fence. -/
def Shape.isFence : Shape → Bool
  | .fence _ _ _ => true
  | _ => false

/-- The leaf blocks among the events lie between two lines, one behind the other, and none is
empty. -/
def Spans (low high : Nat) : List Event → Prop
  | [] => low ≤ high
  | .block b :: es =>
      if b.shape.isContainer then Spans low high es
      else low ≤ b.first ∧ b.first < b.past ∧ Spans b.past high es
  | _ :: es => Spans low high es

lemma spans_block {low high : Nat} {b : Block} {es : List Event}
    (hb : b.shape.isContainer = false) :
    Spans low high (.block b :: es) ↔ low ≤ b.first ∧ b.first < b.past ∧ Spans b.past high es := by
  rw [Spans, hb]
  simp

lemma spans_container {low high : Nat} {b : Block} {es : List Event}
    (hb : b.shape.isContainer = true) : Spans low high (.block b :: es) ↔ Spans low high es := by
  rw [Spans, hb]
  simp

lemma Spans.le {low high : Nat} {es : List Event} (h : Spans low high es) : low ≤ high := by
  induction es generalizing low with
  | nil => exact h
  | cons e es ih =>
      cases e with
      | block b =>
          cases hb : b.shape.isContainer with
          | true => exact ih ((spans_container hb).mp h)
          | false =>
              obtain ⟨h1, h2, h3⟩ := (spans_block hb).mp h
              have := ih h3
              omega
      | _ => exact ih h

lemma Spans.mono_left {low low' high : Nat} {es : List Event} (h : Spans low high es)
    (hlow : low' ≤ low) : Spans low' high es := by
  induction es generalizing low with
  | nil => exact hlow.trans h
  | cons e es ih =>
      cases e with
      | block b =>
          cases hb : b.shape.isContainer with
          | true => exact (spans_container hb).mpr (ih ((spans_container hb).mp h) hlow)
          | false =>
              obtain ⟨h1, h2, h3⟩ := (spans_block hb).mp h
              exact (spans_block hb).mpr ⟨hlow.trans h1, h2, h3⟩
      | _ => exact ih h hlow

lemma Spans.append {low mid high : Nat} {es fs : List Event} (hes : Spans low mid es)
    (hfs : Spans mid high fs) : Spans low high (es ++ fs) := by
  induction es generalizing low with
  | nil => exact hfs.mono_left hes
  | cons e es ih =>
      rw [List.cons_append]
      cases e with
      | block b =>
          cases hb : b.shape.isContainer with
          | true => exact (spans_container hb).mpr (ih ((spans_container hb).mp hes))
          | false =>
              obtain ⟨h1, h2, h3⟩ := (spans_block hb).mp hes
              exact (spans_block hb).mpr ⟨h1, h2, ih h3⟩
      | _ => exact ih hes

/-- A leaf block of a run lies between its lines. -/
lemma Spans.bounds {low high : Nat} {es : List Event} {b : Block} (h : Spans low high es)
    (hmem : .block b ∈ es) (hb : b.shape.isContainer = false) :
    low ≤ b.first ∧ b.first < b.past ∧ b.past ≤ high := by
  induction es generalizing low with
  | nil => simp at hmem
  | cons e es ih =>
      rcases List.mem_cons.mp hmem with rfl | htail
      · obtain ⟨h1, h2, h3⟩ := (spans_block hb).mp h
        exact ⟨h1, h2, h3.le⟩
      · cases e with
        | block d =>
            cases hd : d.shape.isContainer with
            | true => exact ih ((spans_container hd).mp h) htail
            | false =>
                obtain ⟨h1, h2, h3⟩ := (spans_block hd).mp h
                have := ih h3 htail
                omega
        | _ => exact ih h htail

/-- The blocks of events, wherever they are. -/
def blocks (events : List Event) : List Block :=
  events.filterMap fun
    | .block b => some b
    | _ => none

/-- The leaf blocks of events. -/
def leaves (events : List Event) : List Block := (blocks events).filter (!·.shape.isContainer)

lemma mem_blocks {events : List Event} {b : Block} : b ∈ blocks events ↔ .block b ∈ events := by
  rw [blocks, List.mem_filterMap]
  constructor
  · rintro ⟨e, he, hb⟩
    cases e with
    | block d => exact Option.some.inj hb ▸ he
    | _ => simp at hb
  · exact fun he => ⟨.block b, he, rfl⟩

lemma mem_leaves {events : List Event} {b : Block} :
    b ∈ leaves events ↔ .block b ∈ events ∧ b.shape.isContainer = false := by
  rw [leaves, List.mem_filter, mem_blocks, Bool.not_eq_true']

/-- Of two leaf blocks of a run, the one found first ends before the other one begins. -/
lemma Spans.pairwise {low high : Nat} {es : List Event} (h : Spans low high es) :
    (leaves es).Pairwise fun a b => a.past ≤ b.first := by
  induction es generalizing low with
  | nil => exact List.Pairwise.nil
  | cons e es ih =>
      cases e with
      | block b =>
          cases hb : b.shape.isContainer with
          | true =>
              have : leaves (.block b :: es) = leaves es := by simp [leaves, blocks, hb]
              rw [this]
              exact ih ((spans_container hb).mp h)
          | false =>
              obtain ⟨h1, h2, h3⟩ := (spans_block hb).mp h
              have : leaves (.block b :: es) = b :: leaves es := by simp [leaves, blocks, hb]
              rw [this]
              refine List.pairwise_cons.mpr ⟨fun d hd => ?_, ih h3⟩
              obtain ⟨hmem, hleaf⟩ := mem_leaves.mp hd
              exact (h3.bounds hmem hleaf).1
      | _ => exact ih h

/-! ### Leaf blocks -/

/-- What is found of blocks that hold none: such a block, a link definition, or a short line. -/
inductive Leaf where
  | block (shape : Shape) (hshape : shape.isContainer = false)
  | link (label : Text)
  | short

/-- What is found when a leaf covers lines. -/
def Leaf.found (ctx : Context) (first past : Nat) : Leaf → Found
  | block shape _ => foundBlock ctx shape first past
  | link label => ([.link label], past)
  | short => ([.shortLine], past)

/-- The leaf is a fence. -/
def Leaf.isFence : Leaf → Bool
  | block shape _ => shape.isFence
  | _ => false

/-- A leaf is found, a fence or another one, and it covers the line. -/
def IsLeaf (isFence : Bool) (ctx : Context) (line : Nat) (found : Found) : Prop :=
  ∃ (leaf : Leaf) (past : Nat),
    leaf.isFence = isFence ∧ line < past ∧ found = leaf.found ctx line past

lemma IsLeaf.lt {isFence : Bool} {ctx : Context} {line : Nat} {found : Found}
    (h : IsLeaf isFence ctx line found) : line < found.2 := by
  obtain ⟨leaf, past, -, hpast, rfl⟩ := h
  cases leaf <;> exact hpast

lemma foundBlock_isLeaf {isFence : Bool} (ctx : Context) {shape : Shape} {line past : Nat}
    (hshape : shape.isContainer = false) (hfence : shape.isFence = isFence) (h : line < past) :
    IsLeaf isFence ctx line (foundBlock ctx shape line past) :=
  ⟨.block shape hshape, past, hfence, h, rfl⟩

section Leaf

variable {ctx : Context} {lines : Lines} {line stop : Nat} {found : Found}

lemma le_tableRows (ctx : Context) (lines : Lines) (count fuel : Nat) (completed : Int)
    (line : Nat) : line ≤ (tableRows ctx lines count fuel completed line).2 := by
  induction fuel generalizing completed line with
  | zero => exact le_rfl
  | succ fuel ih =>
      rw [tableRows]
      extract_lets l row
      split_ifs
      · exact le_rfl
      · exact le_rfl
      · exact (Nat.le_succ line).trans (ih _ (line + 1))

lemma tableRule_isLeaf (h : tableRule ctx lines line stop = some found) :
    IsLeaf false ctx line found := by
  obtain ⟨head, -, rfl⟩ := Option.map_eq_some_iff.mp h
  have := le_tableRows ctx lines head.length (stop - (line + 2)) 0 (line + 2)
  exact foundBlock_isLeaf ctx rfl rfl (by omega)

lemma le_codeEnd (ctx : Context) (lines : Lines) (fuel line past : Nat) (h : past ≤ line) :
    past ≤ codeEnd ctx lines fuel line past := by
  induction fuel generalizing line past with
  | zero => exact le_rfl
  | succ fuel ih =>
      rw [codeEnd]
      split_ifs
      · exact ih _ _ (h.trans (Nat.le_succ line))
      · have := ih (line + 1) (line + 1) le_rfl
        omega
      · exact le_rfl

lemma codeRule_isLeaf (h : codeRule ctx lines line stop = some found) :
    IsLeaf false ctx line found := by
  rw [codeRule] at h
  split_ifs at h
  obtain rfl := Option.some.inj h
  exact foundBlock_isLeaf ctx rfl rfl (le_codeEnd ctx lines _ (line + 1) (line + 1) le_rfl)

lemma le_fenceEnd (ctx : Context) (lines : Lines) (opening : FenceOpening) (fuel line : Nat) :
    line ≤ (fenceEnd ctx lines opening fuel line).1 := by
  induction fuel generalizing line with
  | zero => exact le_rfl
  | succ fuel ih =>
      have := ih (line + 1)
      rw [fenceEnd]
      split
      · split_ifs <;> omega
      · extract_lets width rest
        split_ifs <;> omega

lemma fenceRule_isLeaf (h : fenceRule ctx lines line stop = some found) :
    IsLeaf true ctx line found := by
  rw [fenceRule] at h
  split_ifs at h
  obtain ⟨opening, -, rfl⟩ := Option.map_eq_some_iff.mp h
  have := le_fenceEnd ctx lines opening (stop - (line + 1)) (line + 1)
  refine foundBlock_isLeaf ctx rfl rfl ?_
  split <;> omega

lemma lt_mathEnd {fuel past : Nat} (h : mathEnd? lines fuel line = some past) : line < past := by
  induction fuel generalizing line with
  | zero => simp [mathEnd?] at h
  | succ fuel ih =>
      rw [mathEnd?] at h
      split_ifs at h
      · obtain rfl := Option.some.inj h
        exact Nat.lt_succ_self line
      · exact (Nat.lt_succ_self line).trans (ih h)

lemma mathRule_isLeaf (h : mathRule ctx lines line stop = some found) :
    IsLeaf false ctx line found := by
  rw [mathRule] at h
  split_ifs at h
  · obtain rfl := Option.some.inj h
    exact foundBlock_isLeaf ctx rfl rfl (Nat.lt_succ_self line)
  · obtain ⟨past, hpast, rfl⟩ := Option.map_eq_some_iff.mp h
    exact foundBlock_isLeaf ctx rfl rfl ((Nat.lt_succ_self line).trans (lt_mathEnd hpast))

lemma breakRule_isLeaf (h : breakRule ctx lines line stop = some found) :
    IsLeaf false ctx line found := by
  rw [breakRule] at h
  split_ifs at h
  obtain rfl := Option.some.inj h
  exact foundBlock_isLeaf ctx rfl rfl (Nat.lt_succ_self line)

lemma le_htmlEnd (ctx : Context) (lines : Lines) (kind : HtmlKind) (fuel line : Nat) :
    line ≤ htmlEnd ctx lines kind fuel line := by
  induction fuel generalizing line with
  | zero => exact le_rfl
  | succ fuel ih =>
      have := ih (line + 1)
      rw [htmlEnd]
      split_ifs <;> omega

lemma htmlRule_isLeaf (h : htmlRule ctx lines line stop = some found) :
    IsLeaf false ctx line found := by
  rw [htmlRule] at h
  split_ifs at h
  obtain ⟨kind, -, rfl⟩ := Option.map_eq_some_iff.mp h
  have hpast : line < (if kind.endsAt (lines.at line).content then line + 1
      else htmlEnd ctx lines kind (stop - (line + 1)) (line + 1)) := by
    split_ifs
    · exact Nat.lt_succ_self line
    · exact le_htmlEnd ctx lines kind _ (line + 1)
  generalize (if kind.endsAt (lines.at line).content then line + 1
      else htmlEnd ctx lines kind (stop - (line + 1)) (line + 1)) = past at hpast ⊢
  extract_lets _ part
  split_ifs
  · exact ⟨.short, past, rfl, hpast, rfl⟩
  · exact foundBlock_isLeaf ctx rfl rfl hpast

lemma headingRule_isLeaf (h : headingRule ctx lines line stop = some found) :
    IsLeaf false ctx line found := by
  rw [headingRule] at h
  split_ifs at h
  obtain ⟨text, -, rfl⟩ := Option.map_eq_some_iff.mp h
  exact foundBlock_isLeaf ctx rfl rfl (Nat.lt_succ_self line)

lemma le_underline {fuel last : Nat} (h : underline? ctx lines stop fuel line = some last) :
    line ≤ last := by
  induction fuel generalizing line with
  | zero => simp [underline?] at h
  | succ fuel ih =>
      rw [underline?] at h
      split_ifs at h
      · exact (Option.some.inj h).le
      · exact (Nat.le_succ line).trans (ih h)

lemma underlinedRule_isLeaf (h : underlinedRule ctx lines line stop = some found) :
    IsLeaf false ctx line found := by
  rw [underlinedRule] at h
  split_ifs at h
  obtain ⟨last, hlast, rfl⟩ := Option.map_eq_some_iff.mp h
  have := le_underline hlast
  exact foundBlock_isLeaf ctx rfl rfl (by omega)

lemma le_paragraphEnd (ctx : Context) (lines : Lines) (fuel line : Nat) :
    line ≤ paragraphEnd ctx lines fuel line := by
  induction fuel generalizing line with
  | zero => exact le_rfl
  | succ fuel ih =>
      have := ih (line + 1)
      rw [paragraphEnd]
      split_ifs <;> omega

lemma paragraph_isLeaf (ctx : Context) (lines : Lines) (line : Nat) :
    IsLeaf false ctx line (paragraph ctx lines line) :=
  foundBlock_isLeaf ctx rfl rfl (le_paragraphEnd ctx lines _ (line + 1))

/-! ### Link definitions -/

lemma Reading.le_take (rest : Text) (pending : List Text) (line : Nat) :
    line ≤ (Reading.take ⟨rest, pending, line⟩).line := by
  unfold Reading.take
  split
  · exact le_rfl
  · exact Nat.le_succ line

lemma le_definitionLabel {fuel : Nat} {r r' : Reading} {t : Text}
    (h : definitionLabel? fuel r = some (t, r')) : r.line ≤ r'.line := by
  induction fuel generalizing r t with
  | zero => simp [definitionLabel?] at h
  | succ fuel ih =>
      have hnext : ∀ (q : Reading) (f : Text → Text), r.line ≤ q.line →
          (definitionLabel? fuel q).map (fun p => (f p.1, p.2)) = some (t, r') →
          r.line ≤ r'.line := by
        intro q f hq hmap
        obtain ⟨⟨t', q'⟩, hp, heq⟩ := Option.map_eq_some_iff.mp hmap
        simp only [Prod.mk.injEq] at heq
        exact hq.trans (ih (heq.2 ▸ hp))
      obtain ⟨rest, pending, line⟩ := r
      rw [definitionLabel?] at h
      split at h
      · simp at h
      · simp at h
      · simp only [Option.some.injEq, Prod.mk.injEq] at h
        exact h.2 ▸ le_rfl
      · exact hnext _ ('\n' :: ·) (Reading.le_take _ _ _) h
      · exact hnext _ ('\\' :: '\n' :: ·) (Reading.le_take _ _ _) h
      · rename_i c _ _ _
        refine hnext _ ('\\' :: c :: ·) ?_ h
        exact le_rfl
      · rename_i c _ _ _ _ _ _ _
        refine hnext _ (c :: ·) ?_ h
        exact le_rfl

lemma le_skipGaps (fuel : Nat) (moved : Bool) (r : Reading) :
    r.line ≤ (skipGaps fuel moved r).2.line := by
  induction fuel generalizing moved r with
  | zero => exact le_rfl
  | succ fuel ih =>
      obtain ⟨rest, pending, line⟩ := r
      rw [skipGaps]
      split
      · exact (Reading.le_take _ _ _).trans (ih true _)
      · split
        · refine le_trans ?_ (ih true _)
          exact le_rfl
        · exact le_rfl
      · exact le_rfl

lemma le_continueTitle (mark : Char) (isEmpty : Bool) (line : Nat) (pending : List Text) :
    line ≤ (continueTitle mark isEmpty line pending).2.2 := by
  induction pending generalizing isEmpty line with
  | nil => exact le_rfl
  | cons t ts ih =>
      rw [continueTitle]
      split
      · exact (Nat.le_succ line).trans (ih _ (line + 1))
      · exact Nat.le_succ line

lemma le_definitionEnd {fuel past : Nat} {target : Reading}
    (h : definitionEnd? fuel target = some past) : target.line ≤ past := by
  have hgap := le_skipGaps fuel false target
  rw [definitionEnd?] at h
  generalize hp : (if atLineEnd target then some target.line else none) = plain at h
  have hplain : plain = some past → target.line ≤ past := by
    rintro rfl
    exact (Option.some.inj (Option.ite_none_right_eq_some.mp hp).2).le
  generalize skipGaps fuel false target = moved_gap at h hgap
  obtain ⟨moved, gap⟩ := moved_gap
  dsimp only at h hgap
  split at h
  · split_ifs at h
    · exact hgap.trans (Option.some.inj h).le
    · exact hplain h
    · exact hplain h
  · rename_i mark _
    have hline := le_continueTitle mark (gap.rest.length ≤ 1) gap.line gap.pending
    split at h
    · rename_i hcont
      rw [hcont] at hline
      split_ifs at h
      · exact (hgap.trans hline).trans (Option.some.inj h).le
      · exact hplain h
    · exact hplain h
  · exact hplain h

lemma definitionRule_isLeaf (h : definitionRule ctx lines line stop = some found) :
    IsLeaf false ctx line found := by
  rw [definitionRule] at h
  split_ifs at h
  split at h
  · extract_lets pending fuel at h
    simp only [Option.bind_eq_bind, Option.bind_eq_some_iff, Prod.exists] at h
    obtain ⟨label, r, hlabel, h⟩ := h
    split at h
    · rename_i behind _
      simp only [Option.bind_eq_some_iff, Prod.exists] at h
      obtain ⟨destination, rest, -, h⟩ := h
      rw [Option.ite_none_left_eq_some] at h
      obtain ⟨-, h⟩ := h
      simp only [Option.bind_eq_some_iff] at h
      obtain ⟨past, hpast, h⟩ := h
      obtain rfl := Option.some.inj (Option.ite_none_left_eq_some.mp h).2
      have hr := le_definitionLabel hlabel
      have hgap := le_skipGaps fuel false ⟨behind, r.pending, r.line⟩
      have hend := le_definitionEnd hpast
      have hlt : line < past :=
        lt_of_lt_of_le (Nat.lt_succ_self line) (hr.trans (hgap.trans hend))
      exact ⟨.link (labelKey label), past, rfl, hlt, rfl⟩
    · simp at h
  · simp at h

end Leaf

/-! ### Lines inside containers -/

lemma Lines.at_of_le {lines : Lines} {n : Nat} (h : lines.length ≤ n) :
    lines.at n = Line.void := by
  rw [Lines.at, List.getD_eq_getElem?_getD, List.getElem?_eq_none h, Option.getD_none]

lemma Lines.at_set_self {lines : Lines} {n : Nat} (l : Line) (h : n < lines.length) :
    Lines.at (lines.set n l) n = l := by
  rw [Lines.at, List.getD_eq_getElem?_getD, List.getElem?_set_self h, Option.getD_some]

lemma Lines.at_set_ne {lines : Lines} {m n : Nat} (l : Line) (h : m ≠ n) :
    Lines.at (lines.set m l) n = lines.at n := by
  rw [Lines.at, List.getD_eq_getElem?_getD, List.getElem?_set_ne h, Lines.at,
    List.getD_eq_getElem?_getD]

/-- A line with content is one of the lines. -/
lemma Lines.lt_length {lines : Lines} {n : Nat} (h : (lines.at n).content ≠ []) :
    n < lines.length := by
  by_contra hle
  exact h (by rw [Lines.at_of_le (Nat.le_of_not_lt hle)]; rfl)

lemma le_skipBlanks (base column : Nat) (t : Text) : column ≤ (skipBlanks base column t).1 := by
  induction t generalizing column with
  | nil => exact le_rfl
  | cons c cs ih =>
      rw [skipBlanks]
      split_ifs
      · exact (Nat.le_add_right _ _).trans (ih _)
      · exact (Nat.le_add_right _ _).trans (ih _)
      · exact le_rfl

/-- A line inside a quote begins at or behind the edge of the quote. -/
lemma quotedLine_indent (l : Line) (rest : Text) : 0 ≤ (quotedLine l rest).indent := by
  have hbuild : ∀ base initial (text : Text),
      (0 : Int) ≤ (((skipBlanks base initial text).1 : Nat) : Int) - (initial : Nat) := by
    intro base initial text
    have := le_skipBlanks base initial text
    omega
  unfold quotedLine
  dsimp only
  split
  · exact hbuild _ _ _
  · split_ifs <;> exact hbuild _ _ _
  · exact hbuild _ _ _

/-- The first line of a list item is void, or its content begins where that of the item does. -/
lemma itemLine_inside (l : Line) (marker : ListMarker) :
    (itemLine l marker).1.isVoid = true ∨
      ((itemLine l marker).2 : Int) ≤ (itemLine l marker).1.indent := by
  have hle := le_skipBlanks l.base (l.indent.toNat + marker.width) (l.content.drop marker.width)
  rw [itemLine]
  generalize skipBlanks l.base (l.indent.toNat + marker.width) (l.content.drop marker.width) = found
    at hle ⊢
  obtain ⟨column, rest⟩ := found
  dsimp only at hle ⊢
  cases rest with
  | nil =>
      -- nothing stands behind the marker
      refine Or.inl ?_
      simp [Line.isVoid, Line.content]
      omega
  | cons c cs =>
      refine Or.inr ?_
      simp only [List.isEmpty_cons, Bool.false_or, decide_eq_true_eq]
      split_ifs <;> omega

/-- The first line of a footnote begins where the content of the footnote does. -/
lemma noteLine_indent (l : Line) (rest : Text) (indent : Nat) :
    (indent : Int) ≤ (noteLine l rest indent).indent := by
  rw [noteLine]
  dsimp only
  split_ifs <;> omega

lemma le_quoteLines (ctx : Context) (stop fuel : Nat) (lastVoid : Bool) (lines : Lines)
    (line : Nat) : line ≤ (quoteLines ctx stop fuel lastVoid lines line).2.1 := by
  induction fuel generalizing lastVoid lines line with
  | zero => exact le_rfl
  | succ fuel ih =>
      rw [quoteLines]
      split
      · exact le_rfl
      · split_ifs
        · exact (Nat.le_succ line).trans (ih _ _ _)
        · exact le_rfl
        · exact le_rfl
        · exact (Nat.le_succ line).trans (ih _ _ _)

lemma quoteLines_le (ctx : Context) (stop fuel : Nat) (lastVoid : Bool) (lines : Lines)
    (line : Nat) : (quoteLines ctx stop fuel lastVoid lines line).2.1 ≤ line + fuel := by
  induction fuel generalizing lastVoid lines line with
  | zero => exact le_rfl
  | succ fuel ih =>
      have hnext : ∀ lastVoid lines,
          (quoteLines ctx stop fuel lastVoid lines (line + 1)).2.1 ≤ line + (fuel + 1) :=
        fun lastVoid lines => (ih lastVoid lines (line + 1)).trans (by omega)
      rw [quoteLines]
      split
      · exact Nat.le_add_right _ _
      · split_ifs
        · exact hnext _ _
        · exact Nat.le_add_right _ _
        · exact Nat.le_add_right _ _
        · exact hnext _ _

/-- A quote leaves the lines in front of those that are looked at. -/
lemma quoteLines_at_lt (ctx : Context) (stop fuel : Nat) (lastVoid : Bool) (lines : Lines)
    {line n : Nat} (h : n < line) :
    (quoteLines ctx stop fuel lastVoid lines line).1.at n = lines.at n := by
  induction fuel generalizing lastVoid lines line with
  | zero => rfl
  | succ fuel ih =>
      have hnext : ∀ lastVoid l,
          (quoteLines ctx stop fuel lastVoid (lines.set line l) (line + 1)).1.at n = lines.at n :=
        fun lastVoid l =>
          (ih lastVoid (lines.set line l) (by omega)).trans (Lines.at_set_ne l (by omega))
      rw [quoteLines]
      split
      · rfl
      · split_ifs
        · exact hnext _ _
        · rfl
        · rfl
        · exact hnext _ _

/-! ### Runs -/

/-- A run may begin at a line: it is not over there, and the line is void or reaches the column of
the container. -/
structure Opens (ctx : Context) (lines : Lines) (line stop : Nat) : Prop where
  bounded : stop ≤ ctx.limit
  before : line < stop
  inside : (lines.at line).isVoid = true ∨ (ctx.indent : Int) ≤ (lines.at line).indent

/-- A block is looked for at a line: the run is not over there, and the line has content that
reaches the column of the container. -/
structure Ready (ctx : Context) (lines : Lines) (line stop : Nat) : Prop where
  bounded : stop ≤ ctx.limit
  before : line < stop
  filled : (lines.at line).isVoid = false
  inside : (ctx.indent : Int) ≤ (lines.at line).indent

/-- A property of runs of events between two lines: a leaf has it and nothing has it, and it is kept
where runs follow one another or are put into a container. -/
structure RunLaw (P : Nat → Nat → List Event → Prop) : Prop where
  nil : ∀ {low high}, low ≤ high → P low high []
  append : ∀ {low mid high es fs}, P low mid es → P mid high fs → P low high (es ++ fs)
  leaf : ∀ {isFence ctx line found}, IsLeaf isFence ctx line found → P line found.2 found.1
  container : ∀ {b low high es}, b.shape.isContainer = true → b.first = low → P low high es →
    P low high (.block b :: es)
  note : ∀ {label low high es}, P low high es → P low high (.openNote label :: (es ++ [.closeNote]))

lemma RunLaw.mono {P : Nat → Nat → List Event → Prop} (hP : RunLaw P) {low low' high high' : Nat}
    {es : List Event} (hlow : low' ≤ low) (h : P low high es) (hhigh : high ≤ high') :
    P low' high' es := by
  have := hP.append (hP.append (hP.nil hlow) h) (hP.nil hhigh)
  rwa [List.nil_append, List.append_nil] at this

/-- No run goes back. -/
lemma le_law : RunLaw fun low high _ => low ≤ high where
  nil := id
  append := le_trans
  leaf h := h.lt.le
  container _ _ h := h
  note := id

/-- What is found gets behind the line, and between the line and the one behind it has the
property. -/
def Gets (P : Nat → Nat → List Event → Prop) (line : Nat) (found : Found) : Prop :=
  line < found.2 ∧ P line found.2 found.1

/-- The reader gets ahead wherever a run may begin, and what it finds has the property. -/
def Reader.Getting (P : Nat → Nat → List Event → Prop) (read : Reader) : Prop :=
  ∀ ctx lines line stop, Opens ctx lines line stop → Gets P line (read ctx lines line stop)

section Rules

variable {inner items : Reader} {ctx : Context} {lines : Lines} {line stop : Nat} {found : Found}
variable {P : Nat → Nat → List Event → Prop}

lemma Ready.lt_length (h : Ready ctx lines line stop) : line < lines.length := by
  refine Lines.lt_length fun hnil => ?_
  have := h.filled
  rw [Line.isVoid, hnil] at this
  simp at this

variable (hP : RunLaw P)
include hP

lemma quoteRule_gets (hinner : inner.Getting P) (hready : Ready ctx lines line stop)
    (h : quoteRule inner ctx lines line stop = some found) : Gets P line found := by
  rw [quoteRule] at h
  split_ifs at h
  extract_lets l at h
  have hpast := le_quoteLines ctx stop (stop - (line + 1)) l.isVoid (lines.set line l) (line + 1)
  have hbound := quoteLines_le ctx stop (stop - (line + 1)) l.isVoid (lines.set line l) (line + 1)
  have hat := quoteLines_at_lt ctx stop (stop - (line + 1)) l.isVoid (lines.set line l)
    (Nat.lt_succ_self line)
  rw [Lines.at_set_self l hready.lt_length] at hat
  generalize quoteLines ctx stop (stop - (line + 1)) l.isVoid (lines.set line l) (line + 1) = quoted
    at h hpast hbound hat
  obtain ⟨inside, past, ended⟩ := quoted
  dsimp only at h hpast hbound hat
  obtain rfl := Option.some.inj h
  have hopens : Opens { ctx with indent := 0, limit := (if ended then past else ctx.limit),
                                 depth := ctx.depth + 1 } inside line past := by
    refine ⟨?_, hpast, Or.inr ?_⟩
    · have := hready.bounded
      have := hready.before
      dsimp only
      split_ifs <;> omega
    · rw [hat]
      exact quotedLine_indent _ _
  obtain ⟨hlt, hrun⟩ := hinner _ _ _ _ hopens
  exact ⟨hlt, hP.container rfl rfl hrun⟩

lemma itemBlocks_gets (hinner : inner.Getting P) (hbounded : stop ≤ ctx.limit)
    (hbefore : line < stop) (hlength : line < lines.length) (marker : ListMarker) :
    Gets P line (itemBlocks inner ctx lines line stop marker) := by
  rw [itemBlocks]
  have hinside := itemLine_inside (lines.at line) marker
  generalize itemLine (lines.at line) marker = part at hinside ⊢
  obtain ⟨l, indent⟩ := part
  dsimp only at hinside ⊢
  split_ifs
  · have hlt : line < min (line + 2) stop := by omega
    exact ⟨hlt, hP.nil hlt.le⟩
  · refine hinner _ _ _ _ ⟨hbounded, hbefore, ?_⟩
    rw [Lines.at_set_self l hlength]
    exact hinside

omit hP in
/-- A list goes on at a line with a marker only. -/
lemma nextMarker_content {l : Line} {marker next : ListMarker}
    (h : nextMarker? ctx l marker = some next) : l.content ≠ [] := by
  intro hnil
  rw [nextMarker?, hnil] at h
  split_ifs at h <;> simp [orderedMarker?, bulletMarker?] at h

lemma listItems_gets (hinner : inner.Getting P) (hbounded : stop ≤ ctx.limit)
    (marker : ListMarker) {fuel : Nat} (hfuel : 0 < fuel) (hbefore : line < stop)
    (hlength : line < lines.length) :
    Gets P line (listItems inner ctx lines stop fuel marker line) := by
  induction fuel generalizing marker line with
  | zero => omega
  | succ fuel ih =>
      have hitem := itemBlocks_gets hP hinner hbounded hbefore hlength marker
      rw [listItems]
      generalize itemBlocks inner ctx lines line stop marker = item at hitem ⊢
      obtain ⟨events, next⟩ := item
      obtain ⟨hlt, hrun⟩ := hitem
      dsimp only at hlt hrun ⊢
      split_ifs with hstop
      · exact ⟨hlt, hP.container rfl rfl hrun⟩
      · split
        · exact ⟨hlt, hP.container rfl rfl hrun⟩
        · rename_i following hmarker
          cases fuel with
          | zero =>
              refine ⟨hlt, hP.container rfl rfl ?_⟩
              simpa [listItems] using hrun
          | succ fuel =>
              obtain ⟨hlt', hrun'⟩ := ih following (Nat.succ_pos fuel) (Nat.lt_of_not_le hstop)
                (Lines.lt_length (nextMarker_content hmarker))
              exact ⟨hlt.trans hlt', hP.container rfl rfl (hP.append hrun hrun')⟩

lemma listRule_gets (hitems : items.Getting P) (hready : Ready ctx lines line stop)
    (h : listRule items ctx lines line stop = some found) : Gets P line found := by
  obtain ⟨marker, -, rfl⟩ := Option.map_eq_some_iff.mp h
  obtain ⟨hlt, hrun⟩ := listItems_gets hP hitems hready.bounded marker
    (Nat.sub_pos_of_lt hready.before) hready.before hready.lt_length
  refine ⟨hlt, hP.container ?_ rfl hrun⟩
  dsimp only
  split_ifs <;> rfl

lemma noteRule_gets (hinner : inner.Getting P) (hready : Ready ctx lines line stop)
    (h : noteRule inner ctx lines line stop = some found) : Gets P line found := by
  rw [noteRule] at h
  split_ifs at h
  obtain ⟨⟨label, rest⟩, -, rfl⟩ := Option.map_eq_some_iff.mp h
  dsimp only
  have hopens : Opens { ctx with indent := ctx.indent + 4, depth := ctx.depth + 1 }
      (lines.set line (noteLine (lines.at line) rest (ctx.indent + 4))) line stop := by
    refine ⟨hready.bounded, hready.before, Or.inr ?_⟩
    rw [Lines.at_set_self _ hready.lt_length]
    exact noteLine_indent _ _ _
  obtain ⟨hlt, hrun⟩ := hinner _ _ _ _ hopens
  exact ⟨hlt, hP.note hrun⟩

omit hP

/-- What finds the block that begins at a line: the rule of fences, that of a container, or one for
another leaf. -/
inductive Fires (inner items : Reader) (ctx : Context) (lines : Lines) (line stop : Nat) :
    Found → Prop where
  | leaf {found : Found} (h : IsLeaf false ctx line found) :
      Fires inner items ctx lines line stop found
  | fence {found : Found} (h : fenceRule ctx lines line stop = some found) :
      Fires inner items ctx lines line stop found
  | quote {found : Found} (h : quoteRule inner ctx lines line stop = some found) :
      Fires inner items ctx lines line stop found
  | list {found : Found} (h : listRule items ctx lines line stop = some found) :
      Fires inner items ctx lines line stop found
  | note {found : Found} (h : noteRule inner ctx lines line stop = some found) :
      Fires inner items ctx lines line stop found

lemma blockAt_fires : Fires inner items ctx lines line stop
    (blockAt inner items ctx lines line stop) := by
  have hfirst : ∀ {P : Found → Prop} {first second : Option Found},
      (∀ found, first = some found → P found) → (∀ found, second = some found → P found) →
      ∀ found, (first <|> second) = some found → P found := by
    intro P first second hfirst hsecond found hfound
    rcases (Option.orElse_eq_some _ _ _).mp hfound with h | ⟨-, h⟩
    · exact hfirst found h
    · exact hsecond found h
  have hall : ∀ {P : Found → Prop} {rule : Option Found} {last : Found},
      (∀ found, rule = some found → P found) → P last → P (rule.getD last) := by
    intro P rule last hrule hlast
    cases rule with
    | none => exact hlast
    | some found => exact hrule found rfl
  have hleaf : ∀ {rule : Option Found},
      (∀ {found}, rule = some found → IsLeaf false ctx line found) →
      ∀ found, rule = some found → Fires inner items ctx lines line stop found :=
    fun hrule _ h => .leaf (hrule h)
  refine hall ?_ (.leaf (paragraph_isLeaf ctx lines line))
  refine hfirst (hleaf tableRule_isLeaf) (hfirst (hleaf codeRule_isLeaf) ?_)
  refine hfirst (hleaf mathRule_isLeaf) (hfirst (fun _ => .fence) (hfirst (fun _ => .quote) ?_))
  refine hfirst (hleaf breakRule_isLeaf) (hfirst (fun _ => .list) (hfirst (fun _ => .note) ?_))
  refine hfirst (hleaf definitionRule_isLeaf) (hfirst (hleaf htmlRule_isLeaf) ?_)
  exact hfirst (hleaf headingRule_isLeaf) (hleaf underlinedRule_isLeaf)

/-- Whatever the block is that begins at a line, it gets behind that line, and has the property. -/
lemma blockAt_gets (hP : RunLaw P) (hinner : inner.Getting P) (hitems : items.Getting P)
    (hready : Ready ctx lines line stop) :
    Gets P line (blockAt inner items ctx lines line stop) := by
  have hfires : Fires inner items ctx lines line stop _ := blockAt_fires
  generalize blockAt inner items ctx lines line stop = found at hfires ⊢
  cases hfires with
  | leaf h => exact ⟨h.lt, hP.leaf h⟩
  | fence h => exact ⟨(fenceRule_isLeaf h).lt, hP.leaf (fenceRule_isLeaf h)⟩
  | quote h => exact quoteRule_gets hP hinner hready h
  | list h => exact listRule_gets hP hitems hready h
  | note h => exact noteRule_gets hP hinner hready h

end Rules

section Sequence

variable {rules : Context → Lines → Nat → Nat → Found} {ctx : Context} {lines : Lines} {stop : Nat}
variable {P : Nat → Nat → List Event → Prop}

lemma le_skipVoid (lines : Lines) (fuel line : Nat) : line ≤ skipVoid lines fuel line := by
  induction fuel generalizing line with
  | zero => exact le_rfl
  | succ fuel ih =>
      rw [skipVoid]
      split_ifs
      · exact (Nat.le_succ line).trans (ih (line + 1))
      · exact le_rfl

/-- Blank lines are skipped up to a line with content or to the limit. -/
lemma skipVoid_filled {lines : Lines} {fuel line : Nat}
    (h : skipVoid lines fuel line < line + fuel) :
    (lines.at (skipVoid lines fuel line)).isVoid = false := by
  induction fuel generalizing line with
  | zero => exact absurd h (Nat.lt_irrefl line)
  | succ fuel ih =>
      rw [skipVoid] at h ⊢
      split_ifs at h ⊢ with hvoid
      · exact ih (by omega)
      · exact Bool.eq_false_iff.mpr hvoid

/-- The line where a sequence looks for a block is ready for one. -/
lemma ready_of_skipVoid {line : Nat} (hbounded : stop ≤ ctx.limit)
    (hstop : ¬ stop ≤ skipVoid lines (ctx.limit - line) line)
    (hindent : ¬ (lines.at (skipVoid lines (ctx.limit - line) line)).indent < ctx.indent) :
    Ready ctx lines (skipVoid lines (ctx.limit - line) line) stop := by
  have := le_skipVoid lines (ctx.limit - line) line
  exact ⟨hbounded, Nat.lt_of_not_le hstop, skipVoid_filled (by omega), Int.not_lt.mp hindent⟩

/-- A sequence of blocks with the property has it. -/
lemma sequence_law (hP : RunLaw P) (hbounded : stop ≤ ctx.limit)
    (hrules : ∀ line, Ready ctx lines line stop → Gets P line (rules ctx lines line stop))
    (fuel line : Nat) :
    P line (sequence rules ctx lines stop fuel line).2
      (sequence rules ctx lines stop fuel line).1 := by
  induction fuel generalizing line with
  | zero => exact hP.nil le_rfl
  | succ fuel ih =>
      rw [sequence]
      split_ifs with hover
      · exact hP.nil le_rfl
      extract_lets start
      have hstart : line ≤ start := le_skipVoid lines (ctx.limit - line) line
      split_ifs with hleft
      · exact hP.nil hstart
      · simp only [Bool.or_eq_true, decide_eq_true_eq, not_or] at hleft
        obtain ⟨hlt, hrun⟩ := hrules start (ready_of_skipVoid hbounded hleft.1 hleft.2)
        generalize rules ctx lines start stop = found at hlt hrun ⊢
        obtain ⟨events, next⟩ := found
        dsimp only at hlt hrun ⊢
        have hnext : next ≤ if next < stop && (lines.at next).isVoid then next + 1 else next := by
          split_ifs <;> omega
        exact hP.append (hP.mono hstart hrun hnext) (ih _)

/-- A sequence that may begin at a line gets behind it. -/
lemma sequence_gets (hP : RunLaw P) {line fuel : Nat}
    (hrules : ∀ line, Ready ctx lines line stop → Gets P line (rules ctx lines line stop))
    (hopens : Opens ctx lines line stop) (hfuel : 0 < fuel) :
    Gets P line (sequence rules ctx lines stop fuel line) := by
  refine ⟨?_, sequence_law hP hopens.bounded hrules fuel line⟩
  obtain ⟨fuel, rfl⟩ := Nat.exists_eq_succ_of_ne_zero hfuel.ne'
  have hbounded := hopens.bounded
  have hbefore := hopens.before
  rw [sequence, if_neg (Nat.not_le.mpr hbefore)]
  extract_lets start
  have hstart : line ≤ start := le_skipVoid lines (ctx.limit - line) line
  split_ifs with hleft
  · simp only [Bool.or_eq_true, decide_eq_true_eq] at hleft
    rcases hleft with hleft | hleft
    · exact lt_of_lt_of_le hbefore hleft
    · -- the line itself reaches the column unless it is void, and then it is skipped
      show line < start
      refine lt_of_le_of_ne hstart fun hsame => ?_
      rcases hopens.inside with hvoid | hinside
      · have hfilled : (lines.at start).isVoid = false :=
          skipVoid_filled (show start < line + (ctx.limit - line) by omega)
        rw [← hsame, hvoid] at hfilled
        simp at hfilled
      · rw [← hsame] at hleft
        omega
  · simp only [Bool.or_eq_true, decide_eq_true_eq, not_or] at hleft
    obtain ⟨hlt, -⟩ := hrules start (ready_of_skipVoid hbounded hleft.1 hleft.2)
    generalize rules ctx lines start stop = found at hlt ⊢
    obtain ⟨events, next⟩ := found
    dsimp only at hlt ⊢
    have hrest := sequence_law le_law hbounded
      (fun line hready => ⟨(hrules line hready).1, (hrules line hready).1.le⟩) fuel
      (if next < stop && (lines.at next).isVoid then next + 1 else next)
    refine lt_of_lt_of_le ?_ hrest
    split_ifs <;> omega

end Sequence

section Readers

variable {P : Nat → Nat → List Event → Prop} (hP : RunLaw P)
include hP

lemma blocksWith_getting {inner items : Reader} (hinner : inner.Getting P)
    (hitems : items.Getting P) : (blocksWith inner items).Getting P :=
  fun _ _ _ _ hopens => sequence_gets hP (fun _ => blockAt_gets hP hinner hitems) hopens
    (Nat.sub_pos_of_lt hopens.before)

lemma skipDeep_getting : skipDeep.Getting P :=
  fun _ _ _ _ hopens =>
    sequence_gets hP (fun _ hready => ⟨hready.before, hP.nil hready.before.le⟩) hopens
      (Nat.sub_pos_of_lt hopens.before)

/-- However many containers there is room for, a run gets ahead, and it has the property. -/
theorem reader_getting (room : Nat) : (reader room).Getting P := by
  induction room using reader.induct with
  | case1 => exact skipDeep_getting hP
  | case2 => exact blocksWith_getting hP (skipDeep_getting hP) (skipDeep_getting hP)
  | case3 room ih ih' => exact blocksWith_getting hP ih ih'

/-- Any run has the property, also one that does not begin. -/
lemma reader_law (room : Nat) {ctx : Context} {lines : Lines} {stop : Nat} (line : Nat)
    (hbounded : stop ≤ ctx.limit) :
    P line (reader room ctx lines line stop).2 (reader room ctx lines line stop).1 := by
  match room with
  | 0 =>
      exact sequence_law hP hbounded
        (fun _ hready => ⟨hready.before, hP.nil hready.before.le⟩) _ line
  | 1 =>
      exact sequence_law hP hbounded
        (fun _ => blockAt_gets hP (skipDeep_getting hP) (skipDeep_getting hP)) _ line
  | room + 2 =>
      exact sequence_law hP hbounded
        (fun _ => blockAt_gets hP (reader_getting hP (room + 1)) (reader_getting hP room)) _ line

/-- The events of a document have the property. -/
theorem blockEvents_law (lines : Lines) : ∃ past, P 0 past (blockEvents lines) :=
  ⟨_, reader_law hP maxDepth 0 le_rfl⟩

end Readers

/-! ### Documents -/

lemma spans_law : RunLaw Spans where
  nil := id
  append := Spans.append
  leaf := by
    rintro isFence ctx line found ⟨leaf, past, -, hpast, rfl⟩
    cases leaf with
    | block shape hshape => exact (spans_block hshape).mpr ⟨le_rfl, hpast, le_rfl⟩
    | link label => exact hpast.le
    | short => exact hpast.le
  container hb _ h := (spans_container hb).mpr h
  note {label low high es} h := h.append (show Spans high high [.closeNote] from le_rfl)

/-- The leaf blocks of a document follow one another. -/
theorem blockEvents_spans (lines : Lines) : ∃ past, Spans 0 past (blockEvents lines) :=
  blockEvents_law spans_law lines

end Galley.Markdown
