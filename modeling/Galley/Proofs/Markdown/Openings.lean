import Galley.Markdown.Document
import Galley.Proofs.LineTable
import Galley.Proofs.Markdown.Spans
import Mathlib.Tactic

/-!
What stands where the fences of a document open.

* `quotedLine_content`, `itemLine_content`, `noteLine_content`: containers take the front of a
  content, and the blanks behind it;
* `KeptInside`: a class of contents that is kept when a container takes its part;
* `OpensIn`: a fence is opened by a content of a class;
* `blockEvents_opened`: with a class for every line, every fence is opened by a content of the class
  of its first line;
* `content_ofText`, `documentEvents_opened`: the same for a document, where the contents of the
  lines are what its table of lines says.
-/

namespace Galley.Markdown

/-! ### What containers leave -/

lemma drop_blankCount (t : Text) : t.drop (blankCount t) = t.dropWhile isBlank := by
  have hsplit := List.takeWhile_append_dropWhile (p := isBlank) (l := t)
  rw [blankCount]
  generalize t.takeWhile isBlank = blanks at hsplit ⊢
  generalize t.dropWhile isBlank = behind at hsplit ⊢
  rw [← hsplit, List.drop_left]

lemma skipBlanks_text (base column : Nat) (t : Text) :
    (skipBlanks base column t).2 = t.dropWhile isBlank := by
  induction t generalizing column with
  | nil => rfl
  | cons c cs ih =>
      rw [skipBlanks]
      split_ifs with htab hspace
      · rw [ih, List.dropWhile_cons_of_pos (by simp [isBlank, htab])]
      · rw [ih, List.dropWhile_cons_of_pos (by simp [isBlank, hspace])]
      · rw [List.dropWhile_cons_of_neg (by simp [isBlank, htab, hspace])]

lemma quotedLine_content (l : Line) (rest : Text) :
    (quotedLine l rest).content = rest.dropWhile isBlank := by
  have hblank : ∀ (c : Char) (text : Text), isBlank c = true →
      text.drop (blankCount text) = (c :: text).dropWhile isBlank := by
    intro c text hc
    rw [drop_blankCount, List.dropWhile_cons_of_pos hc]
  unfold quotedLine
  dsimp only
  split
  · exact hblank ' ' _ rfl
  · split
    · exact hblank '\t' _ rfl
    · exact drop_blankCount _
  · exact drop_blankCount _

lemma itemLine_content (l : Line) (marker : ListMarker) :
    (itemLine l marker).1.content = (l.content.drop marker.width).dropWhile isBlank := by
  have hrest := skipBlanks_text l.base (l.indent.toNat + marker.width) (l.content.drop marker.width)
  rw [itemLine]
  generalize skipBlanks l.base (l.indent.toNat + marker.width) (l.content.drop marker.width) = found
    at hrest ⊢
  obtain ⟨column, rest⟩ := found
  dsimp only at hrest ⊢
  have hsuffix : rest <:+ l.content.drop marker.width := hrest ▸ List.dropWhile_suffix _
  rw [← hrest, List.suffix_iff_eq_drop.mp hsuffix, Line.content, Line.content]
  simp only [List.drop_drop, List.length_drop]
  congr 1
  omega

lemma noteLine_content (l : Line) (rest : Text) (indent : Nat) :
    (noteLine l rest indent).content = rest.dropWhile isBlank :=
  drop_blankCount rest

/-- A class of contents that is kept when a container takes its part of a line. -/
structure KeptInside (P : Text → Prop) : Prop where
  quote {rest : Text} : P ('>' :: rest) → P (rest.dropWhile isBlank)
  item {content : Text} {marker : ListMarker} :
    orderedMarker? content = some marker ∨ bulletMarker? content = some marker → P content →
      P ((content.drop marker.width).dropWhile isBlank)
  note {content label rest : Text} :
    noteLabel? content = some (label, rest) → P content → P (rest.dropWhile isBlank)

/-! ### Classes for the lines -/

/-- The contents of the lines are in their classes. -/
def Inside (P : Nat → Text → Prop) (lines : Lines) : Prop := ∀ n, P n (lines.at n).content

section Readers

variable {P : Nat → Text → Prop} {lines : Lines}

lemma Inside.set (h : Inside P lines) {n : Nat} {l : Line} (hl : P n l.content) :
    Inside P (lines.set n l) := by
  intro m
  by_cases hmn : n = m
  · subst hmn
    by_cases hlt : n < lines.length
    · rw [Lines.at_set_self l hlt]
      exact hl
    · rw [List.set_eq_of_length_le (Nat.le_of_not_lt hlt)]
      exact h n
  · rw [Lines.at_set_ne l hmn]
    exact h m

/-- A content of the class opens a fence with this mark and info string. -/
def OpensIn (P : Text → Prop) (mark info : Text) : Prop :=
  ∃ content opening, P content ∧ fenceOpening? content = some opening ∧
    mark = List.replicate opening.width opening.mark ∧ info = opening.info

/-- The fences among the events are opened by contents of the classes of their first lines. -/
def Opened (P : Nat → Text → Prop) (events : List Event) : Prop :=
  ∀ mark info body first past depth,
    Event.block ⟨.fence mark info body, first, past, depth⟩ ∈ events → OpensIn (P first) mark info

lemma opened_nil : Opened P [] := by simp [Opened]

lemma opened_append {es fs : List Event} : Opened P (es ++ fs) ↔ Opened P es ∧ Opened P fs := by
  simp only [Opened, List.mem_append]
  exact ⟨fun h => ⟨fun _ _ _ _ _ _ he => h _ _ _ _ _ _ (Or.inl he),
    fun _ _ _ _ _ _ hf => h _ _ _ _ _ _ (Or.inr hf)⟩,
    fun h _ _ _ _ _ _ hmem => hmem.elim (h.1 _ _ _ _ _ _) (h.2 _ _ _ _ _ _)⟩

lemma opened_block {b : Block} {es : List Event} (hb : b.shape.isFence = false) :
    Opened P (.block b :: es) ↔ Opened P es := by
  refine ⟨fun h _ _ _ _ _ _ hmem => h _ _ _ _ _ _ (List.mem_cons_of_mem _ hmem),
    fun h mark info body first past depth hmem => ?_⟩
  rcases List.mem_cons.mp hmem with heq | hmem
  · obtain rfl := Event.block.inj heq
    simp [Shape.isFence] at hb
  · exact h _ _ _ _ _ _ hmem

/-- Leaves other than fences hold no fence. -/
lemma IsLeaf.opened {ctx : Context} {line : Nat} {found : Found} (h : IsLeaf false ctx line found) :
    Opened P found.1 := by
  obtain ⟨leaf, past, hleaf, -, rfl⟩ := h
  cases leaf with
  | block shape hshape =>
      exact (opened_block (b := ⟨shape, line, past, ctx.depth⟩) hleaf).mpr opened_nil
  | link label => simp [Opened, Leaf.found]
  | short => simp [Opened, Leaf.found]

/-- The reader finds fences that are opened by contents of their classes. -/
def Reader.Opening (P : Nat → Text → Prop) (read : Reader) : Prop :=
  ∀ ctx lines line stop, Inside P lines → Opened P (read ctx lines line stop).1

variable {inner items : Reader} {ctx : Context} {line stop : Nat} {found : Found}

lemma fenceRule_opened (hlines : Inside P lines)
    (h : fenceRule ctx lines line stop = some found) : Opened P found.1 := by
  rw [fenceRule] at h
  split_ifs at h
  obtain ⟨opening, hopening, rfl⟩ := Option.map_eq_some_iff.mp h
  intro mark info body first past depth hmem
  obtain ⟨⟨rfl, rfl, rfl⟩, rfl, rfl, rfl⟩ :
      (mark = List.replicate opening.width opening.mark ∧ info = opening.info ∧ _) ∧
        first = line ∧ _ ∧ _ := by
    simpa [foundBlock] using hmem
  exact ⟨_, opening, hlines _, hopening, rfl, rfl⟩

lemma sequence_opened {rules : Context → Lines → Nat → Nat → Found}
    (hrules : ∀ line, Opened P (rules ctx lines line stop).1) (fuel line : Nat) :
    Opened P (sequence rules ctx lines stop fuel line).1 := by
  induction fuel generalizing line with
  | zero => exact opened_nil
  | succ fuel ih =>
      rw [sequence]
      split_ifs
      · exact opened_nil
      extract_lets start
      split_ifs
      · exact opened_nil
      · exact opened_append.mpr ⟨hrules start, ih _⟩

lemma skipDeep_opening : skipDeep.Opening P :=
  fun _ _ _ _ _ => sequence_opened (fun _ => opened_nil) _ _

variable (hP : ∀ n, KeptInside (P n))
include hP

lemma quoteLines_inside (ctx : Context) (stop fuel : Nat) (lastVoid : Bool) (line : Nat)
    (h : Inside P lines) : Inside P (quoteLines ctx stop fuel lastVoid lines line).1 := by
  induction fuel generalizing lastVoid lines line with
  | zero => exact h
  | succ fuel ih =>
      have hline := h line
      rw [quoteLines]
      split
      · exact h
      · rename_i c rest hcontent
        rw [hcontent] at hline
        split_ifs with hquoted
        · simp only [Bool.and_eq_true, beq_iff_eq] at hquoted
          obtain ⟨rfl, -⟩ := hquoted
          refine ih _ _ (h.set ?_)
          rw [quotedLine_content]
          exact (hP line).quote hline
        · exact h
        · exact h
        · -- a line without mark keeps its content
          refine ih _ _ (h.set ?_)
          exact h line

lemma quoteRule_opened (hinner : inner.Opening P) (hlines : Inside P lines)
    (h : quoteRule inner ctx lines line stop = some found) : Opened P found.1 := by
  rw [quoteRule] at h
  split_ifs at h with hopens
  extract_lets l at h
  have hinside : Inside P (quoteLines ctx stop (stop - (line + 1)) l.isVoid (lines.set line l)
      (line + 1)).1 := by
    refine quoteLines_inside hP _ _ _ _ _ (hlines.set ?_)
    simp only [opensQuote, Bool.and_eq_true, beq_iff_eq] at hopens
    obtain ⟨rest, hrest⟩ := List.head?_eq_some_iff.mp hopens.2
    have hline := hlines line
    rw [hrest] at hline
    rw [quotedLine_content, hrest]
    exact (hP line).quote hline
  generalize quoteLines ctx stop (stop - (line + 1)) l.isVoid (lines.set line l) (line + 1) = quoted
    at h hinside
  obtain ⟨inside, past, ended⟩ := quoted
  obtain rfl := Option.some.inj h
  exact (opened_block rfl).mpr (hinner _ _ _ _ hinside)

lemma itemBlocks_opened (hinner : inner.Opening P) (hlines : Inside P lines) {marker : ListMarker}
    (hmarker : orderedMarker? (lines.at line).content = some marker ∨
      bulletMarker? (lines.at line).content = some marker) :
    Opened P (itemBlocks inner ctx lines line stop marker).1 := by
  rw [itemBlocks]
  have hcontent := itemLine_content (lines.at line) marker
  generalize itemLine (lines.at line) marker = part at hcontent ⊢
  obtain ⟨l, indent⟩ := part
  dsimp only at hcontent ⊢
  split_ifs
  · exact opened_nil
  · refine hinner _ _ _ _ (hlines.set ?_)
    rw [hcontent]
    exact (hP line).item hmarker (hlines line)

lemma listItems_opened (hinner : inner.Opening P) (hlines : Inside P lines) {marker : ListMarker}
    (fuel : Nat) (hmarker : orderedMarker? (lines.at line).content = some marker ∨
      bulletMarker? (lines.at line).content = some marker) :
    Opened P (listItems inner ctx lines stop fuel marker line).1 := by
  induction fuel generalizing marker line with
  | zero => exact opened_nil
  | succ fuel ih =>
      have hitem : Opened P (itemBlocks inner ctx lines line stop marker).1 :=
        itemBlocks_opened hP hinner hlines hmarker
      rw [listItems]
      generalize itemBlocks inner ctx lines line stop marker = item at hitem ⊢
      obtain ⟨events, next⟩ := item
      dsimp only at hitem ⊢
      split_ifs
      · exact (opened_block rfl).mpr hitem
      · split
        · exact (opened_block rfl).mpr hitem
        · rename_i following hfollowing
          refine (opened_block rfl).mpr (opened_append.mpr ⟨hitem, ih ?_⟩)
          rw [nextMarker?] at hfollowing
          split_ifs at hfollowing
          · exact Or.inl (Option.filter_eq_some_iff.mp hfollowing).1
          · exact Or.inr (Option.filter_eq_some_iff.mp hfollowing).1

lemma listRule_opened (hitems : items.Opening P) (hlines : Inside P lines)
    (h : listRule items ctx lines line stop = some found) : Opened P found.1 := by
  obtain ⟨marker, hmarker, rfl⟩ := Option.map_eq_some_iff.mp h
  refine (opened_block ?_).mpr (listItems_opened hP hitems hlines _ ?_)
  · dsimp only
    split_ifs <;> rfl
  · rw [listOpening?] at hmarker
    split_ifs at hmarker
    have := (Option.filter_eq_some_iff.mp hmarker).1
    rw [listMarker?] at this
    exact ((Option.orElse_eq_some _ _ _).mp this).imp_right And.right

lemma noteRule_opened (hinner : inner.Opening P) (hlines : Inside P lines)
    (h : noteRule inner ctx lines line stop = some found) : Opened P found.1 := by
  rw [noteRule] at h
  split_ifs at h
  obtain ⟨⟨label, rest⟩, hlabel, rfl⟩ := Option.map_eq_some_iff.mp h
  have hinside : Inside P (lines.set line (noteLine (lines.at line) rest (ctx.indent + 4))) := by
    refine hlines.set ?_
    rw [noteLine_content]
    exact (hP line).note hlabel (hlines line)
  have hopened := hinner { ctx with indent := ctx.indent + 4, depth := ctx.depth + 1 } _ line stop
    hinside
  intro mark info body first past depth hmem
  refine hopened mark info body first past depth ?_
  simpa using hmem

/-- Whatever the block is that begins at a line, fences in it are opened by contents of their
classes. -/
lemma blockAt_opened (hinner : inner.Opening P) (hitems : items.Opening P)
    (hlines : Inside P lines) : Opened P (blockAt inner items ctx lines line stop).1 := by
  have hfires : Fires inner items ctx lines line stop _ := blockAt_fires
  generalize blockAt inner items ctx lines line stop = found at hfires ⊢
  cases hfires with
  | leaf h => exact h.opened
  | fence h => exact fenceRule_opened hlines h
  | quote h => exact quoteRule_opened hP hinner hlines h
  | list h => exact listRule_opened hP hitems hlines h
  | note h => exact noteRule_opened hP hinner hlines h

lemma blocksWith_opening (hinner : inner.Opening P) (hitems : items.Opening P) :
    (blocksWith inner items).Opening P :=
  fun _ _ _ _ hlines => sequence_opened (fun _ => blockAt_opened hP hinner hitems hlines) _ _

/-- However many containers there is room for, fences are opened by contents of their classes. -/
theorem reader_opening (room : Nat) : (reader room).Opening P := by
  induction room using reader.induct with
  | case1 => exact skipDeep_opening
  | case2 => exact blocksWith_opening hP skipDeep_opening skipDeep_opening
  | case3 room ih ih' => exact blocksWith_opening hP ih ih'

/-- Fences of lines in their classes are opened by contents of these classes. -/
theorem blockEvents_opened (hlines : Inside P lines) : Opened P (blockEvents lines) :=
  reader_opening hP maxDepth _ _ _ _ hlines

end Readers

/-! ### The lines of a document -/

/-- The character that the block structure sees. -/
def visible (c : Char) : Char := if c == '\x00' then '\uFFFD' else c

/-- The block structure sees the lines of the table. -/
lemma splitAt_normalize (t : Text) :
    splitAt (· == '\n') (normalize t) = (segments t).map fun s => s.line.map visible := by
  refine splitAt_unified rfl (fun cs => by rw [normalize]) (fun c cs hlone => ?_) (fun c hc => ?_) t
  · rw [normalize.eq_3 _ _ hlone]
    by_cases hfeed : c = '\n'
    · rw [hfeed]
      rfl
    · simp [isLineBreak, hfeed, visible]
  · rw [visible]
    split_ifs
    · decide
    · rintro rfl
      exact Bool.noConfusion hc

lemma content_linesOfPieces (pieces : List Text) (n : Nat) :
    ((linesOfPieces pieces).at n).content = (pieces[n]?.getD []).dropWhile isBlank := by
  have hcontent : ∀ ended piece, (Line.ofText ended piece).content = piece.dropWhile isBlank :=
    fun _ piece => drop_blankCount piece
  induction pieces using linesOfPieces.induct generalizing n with
  | case1 => rfl
  | case2 last hvoid =>
      have hnil : last.dropWhile isBlank = [] :=
        List.dropWhile_eq_nil_iff.mpr (List.all_eq_true.mp hvoid)
      rw [linesOfPieces, if_pos hvoid]
      cases n with
      | zero => exact hnil.symm
      | succ n => rfl
  | case3 last hfilled =>
      rw [linesOfPieces, if_neg hfilled]
      cases n with
      | zero => exact hcontent false last
      | succ n => rfl
  | case4 piece pieces hne ih =>
      rw [linesOfPieces.eq_3 _ _ hne]
      cases n with
      | zero => exact hcontent true piece
      | succ n => exact ih n

/-- The content of a line of a document is what the table says of the line, without the blanks in
front. -/
lemma content_ofText (t : Text) (n : Nat) :
    ((Lines.ofText (normalize t)).at n).content =
      (((LineTable.ofText t).lineText n).map visible).dropWhile isBlank := by
  rw [Lines.ofText, content_linesOfPieces, splitAt_normalize, LineTable.lineText_eq,
    List.getElem?_map]
  cases (segments t)[n]? <;> rfl

/-- Fences of a document are opened by contents of the classes of their first lines. -/
theorem documentEvents_opened {P : Nat → Text → Prop} (hP : ∀ n, KeptInside (P n)) {t : Text}
    (h : ∀ n, P n ((((LineTable.ofText t).lineText n).map visible).dropWhile isBlank)) :
    Opened P (documentEvents t) := by
  refine blockEvents_opened hP fun n => ?_
  rw [content_ofText]
  exact h n

end Galley.Markdown
