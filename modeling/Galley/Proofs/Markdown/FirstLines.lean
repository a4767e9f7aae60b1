import Galley.Proofs.Markdown.Notes
import Galley.Proofs.Markdown.Openings
import Mathlib.Tactic

/-!
Blocks begin on lines of the document.

* `BeginBefore`: the blocks of a run begin in front of a line;
* `blockAt_begins`, `sequence_begins`, `reader_bounded`: a reader of a range of lines finds blocks
  that begin in front of its end, whatever containers make of the lines;
* `parse_first_lt`: every block of a document, containers included, begins on one of its lines.
-/

namespace Galley.Markdown

/-! ### Runs -/

/-- The blocks among the events, containers included, begin in front of a line. -/
def BeginBefore (stop : Nat) (events : List Event) : Prop :=
  ∀ b, .block b ∈ events → b.first < stop

lemma beginBefore_nil {stop : Nat} : BeginBefore stop [] := by simp [BeginBefore]

lemma beginBefore_block {stop : Nat} {b : Block} {es : List Event} :
    BeginBefore stop (.block b :: es) ↔ b.first < stop ∧ BeginBefore stop es := by
  simp [BeginBefore]

lemma beginBefore_append {stop : Nat} {es fs : List Event} :
    BeginBefore stop (es ++ fs) ↔ BeginBefore stop es ∧ BeginBefore stop fs := by
  simp only [BeginBefore, List.mem_append, or_imp, forall_and]

lemma BeginBefore.mono {stop stop' : Nat} {es : List Event} (h : BeginBefore stop es)
    (hle : stop ≤ stop') : BeginBefore stop' es := fun b hb => (h b hb).trans_le hle

/-- The blocks that the reader finds begin in front of the end of its range. -/
def Reader.Bounded (read : Reader) : Prop :=
  ∀ ctx lines line stop, BeginBefore stop (read ctx lines line stop).1

section Rules

variable {inner items : Reader} {ctx : Context} {lines : Lines} {line stop : Nat} {found : Found}

lemma IsLeaf.begins {isFence : Bool} (h : IsLeaf isFence ctx line found) (hline : line < stop) :
    BeginBefore stop found.1 := by
  obtain ⟨leaf, past, -, -, rfl⟩ := h
  cases leaf with
  | block shape hshape => exact beginBefore_block.mpr ⟨hline, beginBefore_nil⟩
  | link label => simp [BeginBefore, Leaf.found]
  | short => simp [BeginBefore, Leaf.found]

lemma quoteRule_begins (hinner : inner.Bounded) (hline : line < stop)
    (h : quoteRule inner ctx lines line stop = some found) : BeginBefore stop found.1 := by
  rw [quoteRule] at h
  split_ifs at h
  extract_lets l at h
  have hpast := quoteLines_le ctx stop (stop - (line + 1)) l.isVoid (lines.set line l) (line + 1)
  generalize quoteLines ctx stop (stop - (line + 1)) l.isVoid (lines.set line l) (line + 1) = quoted
    at h hpast
  obtain ⟨inside, past, ended⟩ := quoted
  obtain rfl := Option.some.inj h
  dsimp only at hpast
  exact beginBefore_block.mpr ⟨hline, (hinner _ _ _ _).mono (by omega)⟩

lemma itemBlocks_begins (hinner : inner.Bounded) (marker : ListMarker) :
    BeginBefore stop (itemBlocks inner ctx lines line stop marker).1 := by
  rw [itemBlocks]
  generalize itemLine (lines.at line) marker = part
  obtain ⟨l, indent⟩ := part
  dsimp only
  split_ifs
  · exact beginBefore_nil
  · exact hinner _ _ _ _

lemma listItems_begins (hinner : inner.Bounded) (fuel : Nat) (marker : ListMarker)
    (hline : line < stop) :
    BeginBefore stop (listItems inner ctx lines stop fuel marker line).1 := by
  induction fuel generalizing marker line with
  | zero => exact beginBefore_nil
  | succ fuel ih =>
      have hitem : BeginBefore stop (itemBlocks inner ctx lines line stop marker).1 :=
        itemBlocks_begins hinner marker
      rw [listItems]
      generalize itemBlocks inner ctx lines line stop marker = item at hitem ⊢
      obtain ⟨events, next⟩ := item
      dsimp only at hitem ⊢
      split_ifs with hstop
      · exact beginBefore_block.mpr ⟨hline, hitem⟩
      · split
        · exact beginBefore_block.mpr ⟨hline, hitem⟩
        · rename_i following _
          exact beginBefore_block.mpr
            ⟨hline, beginBefore_append.mpr ⟨hitem, ih following (Nat.lt_of_not_le hstop)⟩⟩

lemma listRule_begins (hitems : items.Bounded) (hline : line < stop)
    (h : listRule items ctx lines line stop = some found) : BeginBefore stop found.1 := by
  obtain ⟨marker, -, rfl⟩ := Option.map_eq_some_iff.mp h
  exact beginBefore_block.mpr ⟨hline, listItems_begins hitems _ marker hline⟩

lemma noteRule_begins (hinner : inner.Bounded)
    (h : noteRule inner ctx lines line stop = some found) : BeginBefore stop found.1 := by
  rw [noteRule] at h
  split_ifs at h
  obtain ⟨⟨label, rest⟩, -, rfl⟩ := Option.map_eq_some_iff.mp h
  have hbody := hinner { ctx with indent := ctx.indent + 4, depth := ctx.depth + 1 }
    (lines.set line (noteLine (lines.at line) rest (ctx.indent + 4))) line stop
  intro b hb
  refine hbody b ?_
  simpa using hb

/-- Whatever the block is that begins at a line, what it holds begins in front of the end of the
range. -/
lemma blockAt_begins (hinner : inner.Bounded) (hitems : items.Bounded) (hline : line < stop) :
    BeginBefore stop (blockAt inner items ctx lines line stop).1 := by
  have hfires : Fires inner items ctx lines line stop _ := blockAt_fires
  generalize blockAt inner items ctx lines line stop = found at hfires ⊢
  cases hfires with
  | leaf h => exact h.begins hline
  | fence h => exact (fenceRule_isLeaf h).begins hline
  | quote h => exact quoteRule_begins hinner hline h
  | list h => exact listRule_begins hitems hline h
  | note h => exact noteRule_begins hinner h

lemma sequence_begins {rules : Context → Lines → Nat → Nat → Found}
    (hrules : ∀ line < stop, BeginBefore stop (rules ctx lines line stop).1) (fuel line : Nat) :
    BeginBefore stop (sequence rules ctx lines stop fuel line).1 := by
  induction fuel generalizing line with
  | zero => exact beginBefore_nil
  | succ fuel ih =>
      rw [sequence]
      split_ifs
      · exact beginBefore_nil
      extract_lets start
      split_ifs with hleft
      · exact beginBefore_nil
      · simp only [Bool.or_eq_true, decide_eq_true_eq, not_or] at hleft
        exact beginBefore_append.mpr ⟨hrules start (Nat.lt_of_not_le hleft.1), ih _⟩

end Rules

lemma skipDeep_bounded : skipDeep.Bounded :=
  fun _ _ _ _ => sequence_begins (fun _ _ => beginBefore_nil) _ _

lemma blocksWith_bounded {inner items : Reader} (hinner : inner.Bounded) (hitems : items.Bounded) :
    (blocksWith inner items).Bounded :=
  fun _ _ _ _ => sequence_begins (fun _ hline => blockAt_begins hinner hitems hline) _ _

/-- However many containers there is room for, blocks begin in front of the end of the range. -/
theorem reader_bounded (room : Nat) : (reader room).Bounded := by
  induction room using reader.induct with
  | case1 => exact skipDeep_bounded
  | case2 => exact blocksWith_bounded skipDeep_bounded skipDeep_bounded
  | case3 room ih ih' => exact blocksWith_bounded ih ih'

/-! ### Documents -/

lemma length_linesOfPieces_le (pieces : List Text) :
    (linesOfPieces pieces).length ≤ pieces.length := by
  induction pieces using linesOfPieces.induct with
  | case1 => exact le_rfl
  | case2 last hvoid =>
      rw [linesOfPieces, if_pos hvoid]
      exact Nat.zero_le _
  | case3 last hfilled =>
      rw [linesOfPieces, if_neg hfilled]
      exact le_rfl
  | case4 piece pieces hne ih =>
      rw [linesOfPieces.eq_3 _ _ hne]
      exact Nat.succ_le_succ ih

/-- Every block of a document begins on one of its lines. -/
theorem parse_first_lt {text : Text} {bs : List Block} (h : parse text = .ok bs) :
    ∀ b ∈ bs, b.first < (segments text).length := by
  intro b hb
  rw [parse] at h
  split_ifs at h
  obtain rfl := Except.ok.inj h
  have hevent := mem_blocks.mp ((blocksOf_subperm (documentEvents text)).subset hb)
  have hlines : (Lines.ofText (normalize text)).length ≤ (segments text).length := by
    refine (length_linesOfPieces_le _).trans_eq ?_
    rw [splitAt_normalize, List.length_map]
  exact (reader_bounded maxDepth _ _ _ _ b hevent).trans_le hlines

end Galley.Markdown
