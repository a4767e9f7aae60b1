import Galley.Proofs.Markdown.Nesting
import Galley.Proofs.Markdown.Openings
import Galley.Proofs.Markdown.Order
import Galley.Proofs.Markdown.Runs
import Mathlib.Tactic

/-!
Blocks begin on lines with content.

* `BeginOn`: the blocks of a run begin on lines of a kind;
* `Where`: only lines of a kind have content;
* `blockAt_starts`, `reader_starts`: a run of such lines, whatever containers make of them, has its
  blocks begin on lines of that kind;
* `Run.alone`, `Run.isCode`: a leaf outside of containers has its first line alone, and what begins
  on a line of code is code;
* `blockEvents_filled`, `blockEvents_alone`, `blockEvents_isCode`: what this says of a document.
-/

namespace Galley.Markdown

/-- The blocks among the events, containers included, begin on lines of a kind. -/
def BeginOn (F : Nat → Prop) (events : List Event) : Prop := ∀ b, .block b ∈ events → F b.first

/-- Only lines of a kind have content. -/
def Where (F : Nat → Prop) (lines : Lines) : Prop :=
  Inside (fun n content => content ≠ [] → F n) lines

section Readers

variable {F : Nat → Prop} {inner items : Reader} {ctx : Context} {lines : Lines} {n stop : Nat}
variable {found : Found} {es fs : List Event}

lemma beginOn_nil : BeginOn F [] := by simp [BeginOn]

lemma beginOn_block {b : Block} : BeginOn F (.block b :: es) ↔ F b.first ∧ BeginOn F es := by
  simp [BeginOn]

lemma BeginOn.append (hes : BeginOn F es) (hfs : BeginOn F fs) : BeginOn F (es ++ fs) :=
  fun b hb => (List.mem_append.mp hb).elim (hes b) (hfs b)

/-- What a container leaves of a line has content only if the line has. -/
lemma keptInside_filled (p : Prop) : KeptInside fun content => content ≠ [] → p where
  quote h _ := h (List.cons_ne_nil _ _)
  item hmarker h _ := h (by rintro rfl; simp [orderedMarker?, bulletMarker?] at hmarker)
  note hlabel h _ := h (by rintro rfl; simp [noteLabel?] at hlabel)

lemma Where.at (h : Where F lines) (hfilled : (lines.at n).isVoid = false) : F n := by
  refine h n fun hnil => ?_
  rw [Line.isVoid, hnil] at hfilled
  exact Bool.noConfusion hfilled

lemma Where.set (h : Where F lines) (hn : F n) (l : Line) : Where F (lines.set n l) :=
  Inside.set h fun _ => hn

lemma Where.quoted (h : Where F lines) (hn : F n) : Where F (quotedLines ctx lines n stop).1 :=
  quoteLines_inside (fun n => keptInside_filled (F n)) _ _ _ _ _ (h.set hn _)

/-- The blocks that the reader finds begin on lines of the kind that lines with content are of. -/
def Reader.Starting (F : Nat → Prop) (read : Reader) : Prop :=
  ∀ ctx lines n stop, Where F lines → Opens ctx lines n stop → BeginOn F (read ctx lines n stop).1

lemma IsLeaf.starts {isFence : Bool} (h : IsLeaf isFence ctx n found) (hn : F n) :
    BeginOn F found.1 := by
  obtain ⟨leaf, past, -, -, rfl⟩ := h
  cases leaf with
  | block shape hshape => exact beginOn_block.mpr ⟨hn, beginOn_nil⟩
  | link label => simp [BeginOn, Leaf.found]
  | short => simp [BeginOn, Leaf.found]

lemma listItems_starts (hinner : inner.Starting F) (hlines : Where F lines)
    (hbounded : stop ≤ ctx.limit) (fuel : Nat) (marker : ListMarker) (hbefore : n < stop)
    (hn : (lines.at n).content ≠ []) :
    BeginOn F (listItems inner ctx lines stop fuel marker n).1 := by
  induction fuel generalizing marker n with
  | zero => exact beginOn_nil
  | succ fuel ih =>
      have hitem : BeginOn F (itemBlocks inner ctx lines n stop marker).1 := by
        rw [itemBlocks_eq]
        dsimp only
        split_ifs
        · exact beginOn_nil
        · exact hinner _ _ _ _ (hlines.set (hlines n hn) _)
            (item_opens hbounded hbefore (Lines.lt_length hn) marker)
      rw [listItems]
      generalize itemBlocks inner ctx lines n stop marker = item at hitem ⊢
      obtain ⟨events, next⟩ := item
      dsimp only at hitem ⊢
      have hblock := beginOn_block (F := F) (b := ⟨.item, n, next, ctx.depth + 1⟩)
        |>.mpr ⟨hlines n hn, hitem⟩
      split_ifs with hstop
      · exact hblock
      · split
        · exact hblock
        · rename_i following hmarker
          exact hblock.append (ih following (Nat.lt_of_not_le hstop) (nextMarker_content hmarker))

/-- Whatever the block is that begins at a line with content, what it holds begins on such lines. -/
lemma blockAt_starts (hinner : inner.Starting F) (hitems : items.Starting F)
    (hlines : Where F lines) (hready : Ready ctx lines n stop) :
    BeginOn F (blockAt inner items ctx lines n stop).1 := by
  have hn : F n := hlines.at hready.filled
  have hfires : Fires inner items ctx lines n stop _ := blockAt_fires
  generalize blockAt inner items ctx lines n stop = found at hfires ⊢
  cases hfires with
  | leaf h => exact h.starts hn
  | fence h => exact (fenceRule_isLeaf h).starts hn
  | quote h =>
      rw [quoteRule_eq] at h
      split_ifs at h
      obtain rfl := Option.some.inj h
      exact beginOn_block.mpr ⟨hn, hinner _ _ _ _ (hlines.quoted hn) (quotedLines_opens hready)⟩
  | list h =>
      obtain ⟨marker, -, rfl⟩ := Option.map_eq_some_iff.mp h
      have hcontent : (lines.at n).content ≠ [] := fun hnil => by
        have := hready.filled
        rw [Line.isVoid, hnil] at this
        exact Bool.noConfusion this
      exact beginOn_block.mpr
        ⟨hn, listItems_starts hitems hlines hready.bounded _ _ hready.before hcontent⟩
  | note h =>
      rw [noteRule_eq] at h
      split_ifs at h
      obtain ⟨label, -, rfl⟩ := Option.map_eq_some_iff.mp h
      intro b hb
      exact hinner _ _ _ _ (hlines.set hn _) (note_opens hready label.2) b (by simpa using hb)

lemma sequence_starts {rules : Context → Lines → Nat → Nat → Found} (hbounded : stop ≤ ctx.limit)
    (hrules : ∀ n, Ready ctx lines n stop → BeginOn F (rules ctx lines n stop).1) (fuel : Nat) :
    BeginOn F (sequence rules ctx lines stop fuel n).1 := by
  induction fuel generalizing n with
  | zero => exact beginOn_nil
  | succ fuel ih =>
      rw [sequence]
      split_ifs
      · exact beginOn_nil
      extract_lets start
      split_ifs with hleft
      · exact beginOn_nil
      · simp only [Bool.or_eq_true, decide_eq_true_eq, not_or] at hleft
        exact (hrules start (ready_of_skipVoid hbounded hleft.1 hleft.2)).append ih

lemma skipDeep_starting : skipDeep.Starting F :=
  fun _ _ _ _ _ hopens => sequence_starts hopens.bounded (fun _ _ => beginOn_nil) _

lemma blocksWith_starting (hinner : inner.Starting F) (hitems : items.Starting F) :
    (blocksWith inner items).Starting F :=
  fun _ _ _ _ hlines hopens => sequence_starts hopens.bounded
    (fun _ hready => blockAt_starts hinner hitems hlines hready) _

/-- However many containers there is room for, blocks begin on lines of the kind that lines with
content are of. -/
theorem reader_starting (room : Nat) : (reader room).Starting F := by
  induction room using reader.induct with
  | case1 => exact skipDeep_starting
  | case2 => exact blocksWith_starting skipDeep_starting skipDeep_starting
  | case3 room ih ih' => exact blocksWith_starting ih ih'

end Readers

/-! ### What begins on one line -/

/-- The shape is that of indented code. -/
def Shape.isCode : Shape → Bool
  | .code _ => true
  | _ => false

section Alone

variable {inner items : Reader} {ctx : Context} {lines : Lines} {n stop past : Nat}
variable {es : List Event} {b c : Block}

lemma codeRule_isCode {found : Found} (h : codeRule ctx lines n stop = some found) :
    ∀ b, .block b ∈ found.1 → b.shape.isCode = true := by
  rw [codeRule] at h
  split_ifs at h
  obtain rfl := Option.some.inj h
  intro b hb
  obtain rfl := Event.block.inj (List.mem_singleton.mp hb)
  rfl

/-- What begins at a line of code is code. -/
lemma blockAt_isCode (hcode : ctx.isCode (lines.at n) = true) :
    ∀ b, .block b ∈ (blockAt inner items ctx lines n stop).1 → b.shape.isCode = true := by
  have htable : tableRule ctx lines n stop = none := by
    rw [tableRule, tableHead?]
    simp [hcode]
  obtain ⟨found, hfound⟩ : ∃ found, codeRule ctx lines n stop = some found := by
    rw [codeRule, if_pos hcode]
    exact ⟨_, rfl⟩
  rw [blockAt, htable, hfound]
  exact codeRule_isCode hfound

/-- A leaf is all that is found where it is not inside of a container that begins there. -/
lemma blockAt_alone (hinner : inner.Nesting) (hitems : items.Nesting)
    (hgets : items.Getting fun low high _ => low ≤ high) (hready : Ready ctx lines n stop)
    (hb : .block b ∈ (blockAt inner items ctx lines n stop).1)
    (hc : .block c ∈ (blockAt inner items ctx lines n stop).1) (hleaf : b.shape.isContainer = false)
    (hdepth : b.depth = ctx.depth) : c = b := by
  have hfires : Fires inner items ctx lines n stop _ := blockAt_fires
  generalize blockAt inner items ctx lines n stop = found at hfires hb hc
  have hone : ∀ {isFence}, IsLeaf isFence ctx n found → c = b := by
    rintro isFence ⟨leaf, past, -, -, rfl⟩
    cases leaf with
    | block shape hshape =>
        rw [Event.block.inj (List.mem_singleton.mp hb), Event.block.inj (List.mem_singleton.mp hc)]
    | link label => simp [Leaf.found] at hb
    | short => simp [Leaf.found] at hb
  -- what a container holds is deeper
  have hdeep : ∀ {d es past}, .block b ∈ .block d :: es → d.shape.isContainer = true →
      BeginWithin (ctx.depth + 1) past es → c = b := by
    intro d es past hmem hd hes
    rcases List.mem_cons.mp hmem with heq | hmem
    · rw [Event.block.inj heq, hd] at hleaf
      exact Bool.noConfusion hleaf
    · have := (hes b hmem).1
      omega
  cases hfires with
  | leaf h => exact hone h
  | fence h => exact hone (fenceRule_isLeaf h)
  | quote h =>
      rw [quoteRule_eq] at h
      split_ifs at h
      obtain rfl := Option.some.inj h
      exact hdeep hb rfl (hinner _ _ _ _ (quotedLines_opens hready))
  | list h =>
      obtain ⟨marker, -, rfl⟩ := Option.map_eq_some_iff.mp h
      refine hdeep hb ?_ (listItems_nests hitems hgets hready.bounded _ marker hready.before
        hready.lt_length)
      dsimp only
      split_ifs <;> rfl
  | note h =>
      rw [noteRule_eq] at h
      split_ifs at h
      obtain ⟨label, -, rfl⟩ := Option.map_eq_some_iff.mp h
      have := (hinner _ _ _ _ (note_opens hready label.2) b (by simpa using hb)).1
      rw [Context.note] at this
      dsimp only at this
      omega

variable (hgets : inner.Getting InOrder) (hitemgets : items.Getting InOrder)
variable (hbounded : stop ≤ ctx.limit)
include hgets hitemgets hbounded

/-- What is found behind a block begins behind it. -/
lemma le_first_of_run {next : Nat}
    (hrest : Run (blockAt inner items) ctx lines stop (afterBlock lines stop next) es past)
    (hb : .block b ∈ es) : next ≤ b.first :=
  (le_afterBlock next).trans
    ((hrest.law hbounded inOrder_law fun _ => blockAt_gets inOrder_law hgets hitemgets).bounds hb).1

/-- A leaf that is as deep as the run has its first line alone. -/
lemma Run.alone (hinner : inner.Nesting) (hitems : items.Nesting)
    (h : Run (blockAt inner items) ctx lines stop n es past) (hb : .block b ∈ es)
    (hc : .block c ∈ es) (hleaf : b.shape.isContainer = false) (hdepth : b.depth = ctx.depth)
    (hfirst : c.first = b.first) : c = b := by
  have hle : ∀ {read : Reader}, read.Getting InOrder → read.Getting fun low high _ => low ≤ high :=
    fun hread _ _ _ _ hopens => ⟨(hread _ _ _ _ hopens).1, (hread _ _ _ _ hopens).1.le⟩
  induction h with
  | ended => exact absurd hb List.not_mem_nil
  | left => exact absurd hb List.not_mem_nil
  | block _ hstart hinside hfound hrest ih =>
      have hready := ready_start hbounded hstart hinside
      have hnests := blockAt_nests hinner hitems (hle hgets) (hle hitemgets) hready
      have halone := blockAt_alone (b := b) (c := c) hinner hitems (hle hitemgets) hready
      rw [hfound] at hnests halone
      have hbehind := fun {d} => le_first_of_run (b := d) hgets hitemgets hbounded hrest
      rcases List.mem_append.mp hb with hb | hb <;> rcases List.mem_append.mp hc with hc | hc
      · exact halone hb hc hleaf hdepth
      · have := (hnests b hb).2
        have := hbehind hc
        omega
      · have := (hnests c hc).2
        have := hbehind hb
        omega
      · exact ih hb hc

/-- What begins on the first line of a run is code, if that line is. -/
lemma Run.isCode (h : Run (blockAt inner items) ctx lines stop n es past)
    (hfilled : (lines.at n).isVoid = false) (hcode : ctx.isCode (lines.at n) = true)
    (hb : .block b ∈ es) (hfirst : b.first = n) : b.shape.isCode = true := by
  have hsame : ctx.start lines n = n := start_of_filled hfilled
  cases h with
  | ended => exact absurd hb List.not_mem_nil
  | left => exact absurd hb List.not_mem_nil
  | block _ hstart hinside hfound hrest =>
      have hready := ready_start hbounded hstart hinside
      have hlt := (blockAt_gets inOrder_law hgets hitemgets hready).1
      rw [hsame] at hfound hlt
      rw [hfound] at hlt
      rcases List.mem_append.mp hb with hb | hb
      · have hall : ∀ c, .block c ∈ (blockAt inner items ctx lines n stop).1 →
            c.shape.isCode = true := blockAt_isCode hcode
        exact hall b (by rw [hfound]; exact hb)
      · have := le_first_of_run hgets hitemgets hbounded hrest hb
        dsimp only at hlt
        omega

end Alone

/-! ### Documents -/

/-- A run may begin on the first line of a document. -/
lemma document_opens {lines : Lines} (hlines : ∀ n, 0 ≤ (lines.at n).indent) (hne : lines ≠ []) :
    Opens ⟨0, none, lines.length, 0⟩ lines 0 lines.length :=
  ⟨le_rfl, List.length_pos_iff.mpr hne, Or.inr (hlines 0)⟩

/-- Every block of a document, containers included, begins on a line with content. -/
theorem blockEvents_filled {lines : Lines} (hlines : ∀ n, 0 ≤ (lines.at n).indent) {b : Block}
    (hb : .block b ∈ blockEvents lines) : (lines.at b.first).isVoid = false := by
  have hwhere : Where (fun n => (lines.at n).isVoid = false) lines := by
    intro n hcontent
    rw [Line.isVoid, List.isEmpty_eq_false_iff]
    exact hcontent
  rcases eq_or_ne lines [] with rfl | hne
  · exact absurd hb List.not_mem_nil
  · exact reader_starting maxDepth _ _ _ _ hwhere (document_opens hlines hne) b hb

lemma blockEvents_run (lines : Lines) : ∃ past,
    Run (blockAt (reader 19) (reader 18)) ⟨0, none, lines.length, 0⟩ lines lines.length 0
      (blockEvents lines) past :=
  ⟨_, run_sequence le_rfl (fun _ hready =>
    (blockAt_gets le_law (reader_getting le_law 19) (reader_getting le_law 18) hready).1) le_rfl⟩

/-- A leaf of a document that no container is around has its first line alone. -/
theorem blockEvents_alone {lines : Lines} {b c : Block} (hb : .block b ∈ blockEvents lines)
    (hc : .block c ∈ blockEvents lines) (hleaf : b.shape.isContainer = false) (hdepth : b.depth = 0)
    (hfirst : c.first = b.first) : c = b := by
  obtain ⟨past, hrun⟩ := blockEvents_run lines
  exact hrun.alone (reader_getting inOrder_law 19) (reader_getting inOrder_law 18) le_rfl
    (reader_nesting 19) (reader_nesting 18) hb hc hleaf hdepth hfirst

/-- What begins on the first line of a document is code, if that line is indented far enough. -/
theorem blockEvents_isCode {lines : Lines} (hlines : ∀ n, 0 ≤ (lines.at n).indent) {b : Block}
    (hb : .block b ∈ blockEvents lines) (hfirst : b.first = 0) (hindent : 4 ≤ (lines.at 0).indent) :
    b.shape.isCode = true := by
  obtain ⟨past, hrun⟩ := blockEvents_run lines
  have hfilled := blockEvents_filled hlines hb
  rw [hfirst] at hfilled
  refine hrun.isCode (reader_getting inOrder_law 19) (reader_getting inOrder_law 18) le_rfl hfilled
    ?_ hb hfirst
  rw [Context.isCode, decide_eq_true_eq]
  simpa using hindent

end Galley.Markdown
