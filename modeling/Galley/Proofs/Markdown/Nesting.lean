import Galley.Proofs.Markdown.Spans
import Mathlib.Tactic

/-!
Where and how deep the blocks of a run begin.

* `Context.quote`, `Context.item`, `Context.note`: what containers tell the lines inside them;
  `quotedLines_opens`, `item_opens`, `note_opens`: a run may begin on their first lines;
* `BeginWithin`: the blocks of a run begin in front of its end, inside a number of containers at
  least;
* `blockAt_nests`, `sequence_nests`, `reader_nesting`: so do those of any run, whatever containers
  there are.
-/

namespace Galley.Markdown

section Inner

variable {inner : Reader} {ctx : Context} {lines : Lines} {line stop : Nat} {found : Found}

/-- The lines of the quote that begins at a line, the line behind it, and whether another block ends
it there. -/
def quotedLines (ctx : Context) (lines : Lines) (line stop : Nat) : Lines × Nat × Bool :=
  let l := quotedLine (lines.at line) (lines.at line).content.tail
  quoteLines ctx stop (stop - (line + 1)) l.isVoid (lines.set line l) (line + 1)

/-- The line before which paragraphs end in a quote. -/
def quoteLimit (limit : Nat) (quoted : Lines × Nat × Bool) : Nat :=
  if quoted.2.2 then quoted.2.1 else limit

/-- What a quote tells the lines inside it. -/
def Context.quote (ctx : Context) (quoted : Lines × Nat × Bool) : Context :=
  { ctx with indent := 0, limit := quoteLimit ctx.limit quoted, depth := ctx.depth + 1 }

/-- What an item with its content at a column tells the lines inside it. -/
def Context.item (ctx : Context) (indent : Nat) : Context :=
  { ctx with indent, listIndent := some ctx.indent, depth := ctx.depth + 2 }

/-- What a footnote tells the lines inside it. -/
def Context.note (ctx : Context) : Context :=
  { ctx with indent := ctx.indent + 4, depth := ctx.depth + 1 }

lemma quoteRule_eq (inner : Reader) (ctx : Context) (lines : Lines) (line stop : Nat) :
    quoteRule inner ctx lines line stop =
      if opensQuote ctx (lines.at line) then
        let quoted := quotedLines ctx lines line stop
        let run := inner (ctx.quote quoted) quoted.1 line quoted.2.1
        some (.block ⟨.quote, line, run.2, ctx.depth⟩ :: run.1, run.2)
      else none := rfl

lemma itemBlocks_eq (inner : Reader) (ctx : Context) (lines : Lines) (line stop : Nat)
    (marker : ListMarker) : itemBlocks inner ctx lines line stop marker =
      let part := itemLine (lines.at line) marker
      if part.1.isVoid && (lines.at (line + 1)).isVoid then ([], min (line + 2) stop)
      else inner (ctx.item part.2) (lines.set line part.1) line stop := rfl

lemma noteRule_eq (inner : Reader) (ctx : Context) (lines : Lines) (line stop : Nat) :
    noteRule inner ctx lines line stop =
      if ctx.isCode (lines.at line) then none
      else (noteLabel? (lines.at line).content).map fun label =>
        let l := noteLine (lines.at line) label.2 (ctx.indent + 4)
        let run := inner ctx.note (lines.set line l) line stop
        (.openNote label.1 :: (run.1 ++ [.closeNote]), run.2) := rfl

/-- A run may begin on the first line of a quote. -/
lemma quotedLines_opens (hready : Ready ctx lines line stop) :
    Opens (ctx.quote (quotedLines ctx lines line stop)) (quotedLines ctx lines line stop).1 line
      (quotedLines ctx lines line stop).2.1 := by
  have hindent := quotedLine_indent (lines.at line) (lines.at line).content.tail
  rw [quotedLines]
  generalize quotedLine (lines.at line) (lines.at line).content.tail = l at hindent ⊢
  have hpast := le_quoteLines ctx stop (stop - (line + 1)) l.isVoid (lines.set line l) (line + 1)
  have hbound := quoteLines_le ctx stop (stop - (line + 1)) l.isVoid (lines.set line l) (line + 1)
  have hat := quoteLines_at_lt ctx stop (stop - (line + 1)) l.isVoid (lines.set line l)
    (Nat.lt_succ_self line)
  rw [Lines.at_set_self l hready.lt_length] at hat
  refine ⟨?_, hpast, Or.inr ?_⟩
  · have := hready.bounded
    have := hready.before
    simp only [Context.quote, quoteLimit]
    split_ifs <;> omega
  · rw [hat]
    exact hindent

/-- A run may begin on the first line of an item. -/
lemma item_opens (hbounded : stop ≤ ctx.limit) (hbefore : line < stop)
    (hlength : line < lines.length) (marker : ListMarker) :
    Opens (ctx.item (itemLine (lines.at line) marker).2)
      (lines.set line (itemLine (lines.at line) marker).1) line stop := by
  refine ⟨hbounded, hbefore, ?_⟩
  rw [Lines.at_set_self _ hlength]
  exact itemLine_inside _ _

/-- A run may begin on the first line of a footnote. -/
lemma note_opens (hready : Ready ctx lines line stop) (rest : Text) :
    Opens ctx.note (lines.set line (noteLine (lines.at line) rest (ctx.indent + 4))) line stop := by
  refine ⟨hready.bounded, hready.before, Or.inr ?_⟩
  rw [Lines.at_set_self _ hready.lt_length]
  exact noteLine_indent _ _ _

end Inner

/-- The blocks among the events, containers included, are inside `depth` containers at least, and
begin in front of a line. -/
def BeginWithin (depth past : Nat) (events : List Event) : Prop :=
  ∀ b, .block b ∈ events → depth ≤ b.depth ∧ b.first < past

section BeginWithin

variable {depth past : Nat} {es fs : List Event}

lemma beginWithin_nil : BeginWithin depth past [] := by simp [BeginWithin]

lemma beginWithin_block {b : Block} : BeginWithin depth past (.block b :: es) ↔
    (depth ≤ b.depth ∧ b.first < past) ∧ BeginWithin depth past es := by
  simp [BeginWithin]

lemma BeginWithin.append (hes : BeginWithin depth past es) (hfs : BeginWithin depth past fs) :
    BeginWithin depth past (es ++ fs) :=
  fun b hb => (List.mem_append.mp hb).elim (hes b) (hfs b)

lemma BeginWithin.mono {depth' past' : Nat} (h : BeginWithin depth past es)
    (hdepth : depth' ≤ depth) (hpast : past ≤ past') : BeginWithin depth' past' es :=
  fun b hb => ⟨hdepth.trans (h b hb).1, (h b hb).2.trans_le hpast⟩

end BeginWithin

/-- What the reader finds is as deep as its container, and begins in front of the end of the run. -/
def Reader.Nesting (read : Reader) : Prop :=
  ∀ ctx lines line stop, Opens ctx lines line stop →
    BeginWithin ctx.depth (read ctx lines line stop).2 (read ctx lines line stop).1

section Rules

variable {inner items : Reader} {ctx : Context} {lines : Lines} {line stop : Nat} {found : Found}

lemma IsLeaf.nests {isFence : Bool} (h : IsLeaf isFence ctx line found) :
    BeginWithin ctx.depth found.2 found.1 := by
  obtain ⟨leaf, past, -, hlt, rfl⟩ := h
  cases leaf with
  | block shape hshape => exact beginWithin_block.mpr ⟨⟨le_rfl, hlt⟩, beginWithin_nil⟩
  | link label => simp [BeginWithin, Leaf.found]
  | short => simp [BeginWithin, Leaf.found]

section Items

variable (hnests : inner.Nesting) (hgets : inner.Getting fun low high _ => low ≤ high)
variable (hbounded : stop ≤ ctx.limit)
include hnests hgets hbounded

lemma itemBlocks_nests (marker : ListMarker) (hbefore : line < stop)
    (hlength : line < lines.length) :
    line < (itemBlocks inner ctx lines line stop marker).2 ∧
      BeginWithin (ctx.depth + 2) (itemBlocks inner ctx lines line stop marker).2
        (itemBlocks inner ctx lines line stop marker).1 := by
  have hopens := item_opens hbounded hbefore hlength marker
  rw [itemBlocks_eq]
  dsimp only
  split_ifs
  · exact ⟨lt_min (Nat.lt_add_of_pos_right (by decide)) hbefore, beginWithin_nil⟩
  · exact ⟨(hgets _ _ _ _ hopens).1, hnests _ _ _ _ hopens⟩

lemma listItems_nests (fuel : Nat) (marker : ListMarker) (hbefore : line < stop)
    (hlength : line < lines.length) :
    BeginWithin (ctx.depth + 1) (listItems inner ctx lines stop fuel marker line).2
      (listItems inner ctx lines stop fuel marker line).1 := by
  induction fuel generalizing marker line with
  | zero => exact beginWithin_nil
  | succ fuel ih =>
      have hitem := itemBlocks_nests hnests hgets hbounded marker hbefore hlength
      rw [listItems]
      generalize itemBlocks inner ctx lines line stop marker = item at hitem ⊢
      obtain ⟨events, next⟩ := item
      obtain ⟨hlt, hrun⟩ := hitem
      dsimp only at hlt hrun ⊢
      have hblock : BeginWithin (ctx.depth + 1) next
          (.block ⟨.item, line, next, ctx.depth + 1⟩ :: events) :=
        beginWithin_block.mpr ⟨⟨le_rfl, hlt⟩, hrun.mono (Nat.le_succ _) le_rfl⟩
      split_ifs with hstop
      · exact hblock
      · split
        · exact hblock
        · rename_i following hmarker
          have hlength' := Lines.lt_length (nextMarker_content hmarker)
          have hmore := ih following (Nat.lt_of_not_le hstop) hlength'
          cases fuel with
          | zero =>
              rw [listItems, List.append_nil]
              exact hblock
          | succ fuel =>
              have hlt' := (listItems_gets le_law hgets hbounded following (Nat.succ_pos fuel)
                (Nat.lt_of_not_le hstop) hlength').1
              exact (hblock.mono le_rfl hlt'.le).append hmore

end Items

/-- Whatever the block is that begins at a line, what it holds is as deep, and begins in front of
the line behind it. -/
lemma blockAt_nests (hinner : inner.Nesting) (hitems : items.Nesting)
    (hgets : inner.Getting fun low high _ => low ≤ high)
    (hitemgets : items.Getting fun low high _ => low ≤ high) (hready : Ready ctx lines line stop) :
    BeginWithin ctx.depth (blockAt inner items ctx lines line stop).2
      (blockAt inner items ctx lines line stop).1 := by
  have hfires : Fires inner items ctx lines line stop _ := blockAt_fires
  generalize blockAt inner items ctx lines line stop = found at hfires ⊢
  cases hfires with
  | leaf h => exact h.nests
  | fence h => exact (fenceRule_isLeaf h).nests
  | quote h =>
      have hopens := quotedLines_opens hready
      rw [quoteRule_eq] at h
      split_ifs at h
      obtain rfl := Option.some.inj h
      exact beginWithin_block.mpr ⟨⟨le_rfl, (hgets _ _ _ _ hopens).1⟩,
        (hinner _ _ _ _ hopens).mono (Nat.le_succ _) le_rfl⟩
  | list h =>
      obtain ⟨marker, -, rfl⟩ := Option.map_eq_some_iff.mp h
      have hlt := (listItems_gets le_law hitemgets hready.bounded marker
        (Nat.sub_pos_of_lt hready.before) hready.before hready.lt_length).1
      have hrun := listItems_nests hitems hitemgets hready.bounded (stop - line) marker
        hready.before
        hready.lt_length
      exact beginWithin_block.mpr ⟨⟨le_rfl, hlt⟩, hrun.mono (Nat.le_succ _) le_rfl⟩
  | note h =>
      rw [noteRule_eq] at h
      split_ifs at h
      obtain ⟨label, -, rfl⟩ := Option.map_eq_some_iff.mp h
      intro b hb
      refine ((hinner _ _ _ _ (note_opens hready label.2)).mono (Nat.le_succ _) le_rfl) b ?_
      simpa using hb

lemma sequence_nests {rules : Context → Lines → Nat → Nat → Found}
    (hbounded : stop ≤ ctx.limit)
    (hrules : ∀ line, Ready ctx lines line stop → line < (rules ctx lines line stop).2 ∧
      BeginWithin ctx.depth (rules ctx lines line stop).2 (rules ctx lines line stop).1)
    (fuel line : Nat) :
    BeginWithin ctx.depth (sequence rules ctx lines stop fuel line).2
      (sequence rules ctx lines stop fuel line).1 := by
  induction fuel generalizing line with
  | zero => exact beginWithin_nil
  | succ fuel ih =>
      rw [sequence]
      split_ifs
      · exact beginWithin_nil
      extract_lets start
      split_ifs with hleft
      · exact beginWithin_nil
      · simp only [Bool.or_eq_true, decide_eq_true_eq, not_or] at hleft
        obtain ⟨hlt, hrun⟩ := hrules start (ready_of_skipVoid hbounded hleft.1 hleft.2)
        have hrest := sequence_law (P := fun low high _ => low ≤ high) le_law hbounded
          (fun line hready => ⟨(hrules line hready).1, (hrules line hready).1.le⟩) fuel
        generalize rules ctx lines start stop = found at hlt hrun ⊢
        obtain ⟨events, next⟩ := found
        dsimp only at hlt hrun ⊢
        refine (hrun.mono le_rfl (le_trans ?_ (hrest _))).append (ih _)
        split_ifs <;> omega

end Rules

lemma blocksWith_nesting {inner items : Reader} (hinner : inner.Nesting) (hitems : items.Nesting)
    (hgets : inner.Getting fun low high _ => low ≤ high)
    (hitemgets : items.Getting fun low high _ => low ≤ high) : (blocksWith inner items).Nesting :=
  fun _ _ _ _ hopens => sequence_nests hopens.bounded (fun _ hready =>
    ⟨(blockAt_gets le_law hgets hitemgets hready).1,
      blockAt_nests hinner hitems hgets hitemgets hready⟩) _ _

lemma skipDeep_nesting : skipDeep.Nesting :=
  fun _ _ _ _ hopens => sequence_nests hopens.bounded
    (fun _ hready => ⟨hready.before, beginWithin_nil⟩) _ _

/-- However many containers there is room for, a run is as deep as its container, and its blocks
begin in front of its end. -/
theorem reader_nesting (room : Nat) : (reader room).Nesting := by
  induction room using reader.induct with
  | case1 => exact skipDeep_nesting
  | case2 =>
      exact blocksWith_nesting skipDeep_nesting skipDeep_nesting (skipDeep_getting le_law)
        (skipDeep_getting le_law)
  | case3 room ih ih' =>
      exact blocksWith_nesting ih ih' (reader_getting le_law (room + 1))
        (reader_getting le_law room)

end Galley.Markdown
