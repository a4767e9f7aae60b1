import Galley.Proofs.Markdown.WovenReaders
import Mathlib.Tactic

/-!
Documents among labels.

* `Follows.blocksOf`: where events follow others, so do the blocks of the document;
* `Run.labels`: the labels in front of a document are blocks in front of its run;
* `blockEvents_woven`: a document among labels has its events among the labels.
-/

namespace Galley.Markdown

/-! ### The blocks of a document -/

section Follows

variable {s : Labelling} {P Q : Block → Prop} {es es' : List Event} {bs bs' : List Block}

lemma Follows.mono (h : Follows s P es es') (hP : ∀ b, P b → Q b) : Follows s Q es es' := by
  induction h with
  | nil => exact .nil
  | kept he _ ih => exact .kept he ih
  | dropped hb _ ih => exact .dropped hb ih
  | added hb _ ih => exact .added (hb.imp_right (hP _)) ih

/-- Only blocks come in addition or not at all. -/
lemma Follows.contains_shortLine (h : Follows s P es es') :
    es'.contains .shortLine = es.contains .shortLine := by
  induction h with
  | nil => rfl
  | @kept e es es' he _ ih =>
      cases e <;> simp_all [Labelling.moveEvent]
  | dropped hb _ ih => simpa using ih
  | added hb _ ih => simpa using ih

lemma Follows.names (h : Follows s P es es') : Names.ofEvents es' = Names.ofEvents es := by
  have hsame : ∀ {β : Type} (f : Event → Option β), (∀ b, f (.block b) = none) →
      es'.filterMap f = es.filterMap f := by
    intro β f hf
    induction h with
    | nil => rfl
    | @kept e es es' he _ ih =>
        have hmoved : f (s.moveEvent e) = f e := by
          cases e with
          | block b => rw [Labelling.moveEvent, hf, hf]
          | _ => rfl
        rw [List.filterMap_cons, List.filterMap_cons, hmoved, ih]
    | dropped hb _ ih => rw [List.filterMap_cons, hf, ih]
    | added hb _ ih => rw [List.filterMap_cons, hf, ih]
  rw [Names.ofEvents, Names.ofEvents, hsame _ fun _ => rfl, hsame _ fun _ => rfl]

/-- A container has no text of its own. -/
lemma inlineTexts_container {shape : Shape} (h : shape.isContainer = true) :
    shape.inlineTexts = [] := by
  cases shape <;> first | rfl | simp [Shape.isContainer] at h

variable (hP : ∀ b, P b → b.shape.inlineTexts = [])
include hP

lemma Follows.inlineTexts (h : Follows s P es es') : inlineTexts es' = inlineTexts es := by
  induction h with
  | nil => rfl
  | @kept e es es' he _ ih =>
      rw [Markdown.inlineTexts, Markdown.inlineTexts, List.flatMap_cons, List.flatMap_cons] at *
      rw [ih]
      cases e <;> rfl
  | dropped hb _ ih =>
      rw [ih, Markdown.inlineTexts, Markdown.inlineTexts, List.flatMap_cons]
      simp [inlineTexts_container hb]
  | @added b es es' hb _ ih =>
      have hnone : b.shape.inlineTexts = [] := hb.elim inlineTexts_container (hP b)
      rw [← ih, Markdown.inlineTexts, Markdown.inlineTexts, List.flatMap_cons]
      simp [hnone]

lemma Follows.referredNotes (h : Follows s P es es') : referredNotes es' = referredNotes es := by
  rw [Markdown.referredNotes, Markdown.referredNotes, h.names, h.inlineTexts hP]

omit hP

/-- Blocks with their lines where they are among labels; containers may be others, and blocks of a
kind come in addition. -/
def FollowsBlocks (s : Labelling) (P : Block → Prop) (bs bs' : List Block) : Prop :=
  Follows s P (bs.map .block) (bs'.map .block)

lemma FollowsBlocks.append {cs cs' : List Block} (h : FollowsBlocks s P bs bs')
    (hcs : FollowsBlocks s P cs cs') : FollowsBlocks s P (bs ++ cs) (bs' ++ cs') := by
  rw [FollowsBlocks, List.map_append, List.map_append]
  exact Follows.append h hcs

/-- Sorted events follow others: those outside of footnotes, and those of each footnote. -/
structure Sorting.Follows (s : Labelling) (P : Block → Prop) (t t' : Sorting) : Prop where
  outside : FollowsBlocks s P t.outside t'.outside
  notes : List.Forall₂ (fun n n' => n.1 = n'.1 ∧ FollowsBlocks s P n.2 n'.2) t.notes t'.notes

lemma Follows.sortEvents (h : Follows s P es es') (inside : Bool) (hbs : FollowsBlocks s P bs bs')
    (label : Text) :
    Sorting.Follows s P (sortEvents inside bs label es) (sortEvents inside bs' label es') := by
  induction h generalizing inside bs bs' label with
  | nil => exact ⟨.nil, .nil⟩
  | @kept e es es' he _ ih =>
      cases e with
      | block b =>
          have hone : FollowsBlocks s P [b] [s.moveBlock b] := .kept he .nil
          cases inside with
          | true => exact ih true (hbs.append hone) label
          | false =>
              obtain ⟨houtside, hnotes⟩ := ih false hbs label
              exact ⟨hone.append houtside, hnotes⟩
      | link => exact ih inside hbs label
      | openNote l => exact ih true (show FollowsBlocks s P [] [] from .nil) l
      | closeNote =>
          obtain ⟨houtside, hnotes⟩ := ih false hbs label
          exact ⟨houtside, .cons ⟨rfl, hbs⟩ hnotes⟩
      | shortLine => exact ih inside hbs label
  | @dropped b es es' hb _ ih =>
      have hone : FollowsBlocks s P [b] [] := .dropped hb .nil
      cases inside with
      | true => exact (List.append_nil bs') ▸ ih true (hbs.append hone) label
      | false =>
          obtain ⟨houtside, hnotes⟩ := ih false hbs label
          exact ⟨hone.append houtside, hnotes⟩
  | @added b es es' hb _ ih =>
      have hone : FollowsBlocks s P [] [b] := .added hb .nil
      cases inside with
      | true => exact (List.append_nil bs) ▸ ih true (hbs.append hone) label
      | false =>
          obtain ⟨houtside, hnotes⟩ := ih false hbs label
          exact ⟨hone.append houtside, hnotes⟩

lemma Sorting.Follows.noteBlocks {t t' : Sorting} (h : Sorting.Follows s P t t') (label : Text) :
    FollowsBlocks s P (t.noteBlocks label) (t'.noteBlocks label) := by
  have hlookup : ∀ {ns ns' : List (Text × List Block)},
      List.Forall₂ (fun n n' => n.1 = n'.1 ∧ FollowsBlocks s P n.2 n'.2) ns ns' →
      FollowsBlocks s P ((ns.lookup label).getD []) ((ns'.lookup label).getD []) := by
    intro ns ns' hns
    induction hns with
    | nil => exact .nil
    | @cons n n' ns ns' hn _ ih =>
        obtain ⟨hlabel, hblocks⟩ := hn
        rw [List.lookup_cons, List.lookup_cons, ← hlabel]
        split
        · exact hblocks
        · exact ih
  exact hlookup (List.forall₂_reverse_iff.mpr h.notes)

include hP in
/-- Where events follow others, the blocks of the document do. -/
lemma Follows.blocksOf (h : Follows s P es es') :
    FollowsBlocks s P (blocksOf es) (blocksOf es') := by
  have hsorted := h.sortEvents false (show FollowsBlocks s P [] [] from .nil) []
  rw [Markdown.blocksOf, Markdown.blocksOf, h.referredNotes hP]
  refine hsorted.outside.append ?_
  generalize Markdown.referredNotes es = labels
  induction labels with
  | nil => exact .nil
  | cons label labels ih =>
      rw [List.flatMap_cons, List.flatMap_cons]
      exact (hsorted.noteBlocks label).append ih

/-- The leaves that do not come in addition are the leaves that are followed. -/
lemma FollowsBlocks.leaves {isAdded : Block → Bool} (h : FollowsBlocks s P bs bs')
    (hadded : ∀ b, P b → isAdded b = true) (hmoved : ∀ b, isAdded (s.moveBlock b) = false) :
    bs'.filter (fun b => !b.shape.isContainer && !isAdded b) =
      (bs.filter (!·.shape.isContainer)).map s.moveBlock := by
  rw [FollowsBlocks] at h
  generalize hes : bs.map Event.block = es at h
  generalize hes' : bs'.map Event.block = es' at h
  induction h generalizing bs bs' with
  | nil =>
      obtain rfl := List.map_eq_nil_iff.mp hes
      obtain rfl := List.map_eq_nil_iff.mp hes'
      rfl
  | @kept e es es' he _ ih =>
      obtain ⟨b, bs, rfl, rfl, hbs⟩ := List.map_eq_cons_iff.mp hes
      obtain ⟨b', bs', rfl, hb', hbs'⟩ := List.map_eq_cons_iff.mp hes'
      obtain rfl : b' = s.moveBlock b := Event.block.inj hb'
      have hleaf : b.shape.isContainer = false := he b rfl
      have hleaf' : (s.moveBlock b).shape.isContainer = false := hleaf
      rw [List.filter_cons_of_pos (by simp [hleaf', hmoved]),
        List.filter_cons_of_pos (by simp [hleaf]), List.map_cons, ih hbs hbs']
  | @dropped b es es' hb _ ih =>
      obtain ⟨c, bs, rfl, hc, hbs⟩ := List.map_eq_cons_iff.mp hes
      obtain rfl : c = b := Event.block.inj hc
      rw [List.filter_cons_of_neg (by simp [hb]), ih hbs hes']
  | @added b es es' hb _ ih =>
      obtain ⟨c, bs', rfl, hc, hbs'⟩ := List.map_eq_cons_iff.mp hes'
      obtain rfl : c = b := Event.block.inj hc
      have hout : (!c.shape.isContainer && !isAdded c) = false := by
        rcases hb with hb | hb
        · simp [hb]
        · simp [hadded c hb]
      rw [List.filter_cons_of_neg (by simp [hout]), ih hes hbs']

end Follows

/-! ### Labels in front of a document -/

section Front

variable {rules : Context → Lines → Nat → Nat → Found} {inner items : Reader} {ctx : Context}
variable {lines : Lines} {stop line past : Nat} {es : List Event}

/-- What begins at a line may begin behind it, where the line is blank and is taken with the block
in front. -/
lemma Run.behind (hbounded : stop ≤ ctx.limit) (h : Run rules ctx lines stop line es past) :
    ∃ past', Run rules ctx lines stop (afterBlock lines stop line) es past' := by
  by_cases hskip : line < stop ∧ (lines.at line).isVoid = true
  · obtain ⟨hline, hvoid⟩ := hskip
    have hstart : ctx.start lines line = ctx.start lines (line + 1) :=
      start_of_void hvoid (hline.trans_le hbounded)
    have hle : line + 1 ≤ ctx.start lines (line + 1) := le_start
    rw [afterBlock, if_pos (by simp [hline, hvoid])]
    cases h with
    | ended hover => omega
    | left _ hleft =>
        rw [hstart] at hleft
        by_cases hmore : line + 1 < stop
        · exact ⟨_, .left hmore hleft⟩
        · exact ⟨_, .ended (Nat.le_of_not_lt hmore)⟩
    | block _ hbefore hinside hfound hrest =>
        rw [hstart] at hbefore hinside hfound
        exact ⟨_, .block (by omega) hbefore hinside hfound hrest⟩
  · rw [afterBlock, if_neg (by simpa using hskip)]
    exact ⟨past, h⟩

/-- A block that is the line of the label with a name. -/
def IsLabelAt (place : Nat) (id : Text) (b : Block) : Prop :=
  b.first = place ∧ ∃ blanks : Text, (∀ c ∈ blanks, isBlank c = true) ∧
    b.shape = .html (blanks ++ labelDirective id)

/-- Labels in front of a run are blocks in front of it. -/
lemma Run.labels {name : Nat → Text} (hbounded : stop ≤ ctx.limit) (hindent : ctx.indent = 0)
    (hline : line ≤ stop)
    (hlabels : ∀ i < line, IsLabel (name i) (lines.at i) ∧ 0 ≤ (lines.at i).indent ∧
      (lines.at i).indent < 4)
    (h : Run (blockAt inner items) ctx lines stop line es past) :
    ∃ (labels : List Block) (past' : Nat),
      Run (blockAt inner items) ctx lines stop 0 (labels.map .block ++ es) past' ∧
      ∀ b ∈ labels, ∃ i < line, IsLabelAt i (name i) b := by
  induction line generalizing es past with
  | zero => exact ⟨[], past, h, by simp⟩
  | succ line ih =>
      obtain ⟨hlabel, hle, hlt⟩ := hlabels line (Nat.lt_succ_self line)
      have hstart : ctx.start lines line = line := start_of_filled hlabel.filled
      have hcode : ctx.isCode (lines.at line) = false := by
        rw [Context.isCode, decide_eq_false_iff_not, hindent]
        omega
      obtain ⟨past', hrun⟩ := h.behind hbounded
      obtain ⟨blanks, hblanks, hbody⟩ := hlabel.body ctx.indent
      have hfound := blockAt_label inner items stop hlabel hcode
      rw [hbody] at hfound
      have hone : Run (blockAt inner items) ctx lines stop line
          ([.block ⟨.html (blanks ++ labelDirective (name line)), line, line + 1, ctx.depth⟩] ++ es)
          past' := by
        refine .block hline (by rwa [hstart]) ?_ (by rw [hstart]; exact hfound) hrun
        rw [hstart, hindent]
        exact hle
      obtain ⟨labels, past'', hlabelled, hall⟩ :=
        ih (by omega) (fun i hi => hlabels i (by omega)) hone
      refine ⟨labels ++ [⟨.html (blanks ++ labelDirective (name line)), line, line + 1, ctx.depth⟩],
        past'', by simpa using hlabelled, fun b hb => ?_⟩
      rcases List.mem_append.mp hb with hb | hb
      · obtain ⟨i, hi, hat⟩ := hall b hb
        exact ⟨i, by omega, hat⟩
      · obtain rfl := List.mem_singleton.mp hb
        exact ⟨line, Nat.lt_succ_self line, rfl, blanks, hblanks, rfl⟩

end Front

/-! ### Documents -/

section Document

variable {s : Labelling} {lines lines' : Lines} {name : Nat → Text}

/-- The block of a label: raw HTML that is its line, in front of the document or inside. -/
def Labelling.IsLabelIn (s : Labelling) (name : Nat → Text) (b : Block) : Prop :=
  s.IsLabelBlock b ∨ ∃ i < s.front, IsLabelAt i (name i) b

lemma follows_labels {P : Block → Prop} {labels : List Block} (h : ∀ b ∈ labels, P b) :
    Follows s P [] (labels.map .block) := by
  induction labels with
  | nil => exact .nil
  | cons b labels ih =>
      obtain ⟨hb, hlabels⟩ := List.forall_mem_cons.mp h
      exact .added (Or.inr hb) (ih hlabels)

/-- The events of a document follow among labels, with the labels. -/
theorem blockEvents_woven (h : ∀ cut, lines.length < cut → Woven s cut 0 lines.length lines lines')
    (hlength : lines'.length = s.top lines.length) (habove : s.above 0 = false)
    (hraw : ∀ n, 0 ≤ (lines.at n).indent)
    (hfront : ∀ i < s.front, IsLabel (name i) (lines'.at i) ∧ 0 ≤ (lines'.at i).indent ∧
      (lines'.at i).indent < 4)
    (htame : ∀ past, s.Tame 1 past (blockEvents lines)) :
    Follows s (s.IsLabelIn name) (blockEvents lines) (blockEvents lines') := by
  have hinner := reader_sound 19
  have hitems := reader_sound 18
  -- the run behind the labels in front
  obtain ⟨es', past', hfollows, hrun⟩ : ∃ es' past',
      Follows s s.IsLabelBlock (blockEvents lines) es' ∧
        Run (blockAt (reader 19) (reader 18)) ⟨0, none, lines'.length, 0⟩ lines' lines'.length
          s.front es' past' := by
    rcases eq_or_ne lines [] with rfl | hne
    · exact ⟨[], _, .nil, .ended hlength.le⟩
    · have hopens := document_opens hraw hne
      obtain ⟨past, hrun⟩ := blockEvents_run lines
      -- the lines are woven as far as the run may look
      have hcut : lines.length < max lines.length past + 1 := by omega
      have hwoven : Woven s _ 0 (Context.mk 0 none lines.length 0).limit lines lines' := h _ hcut
      obtain ⟨-, es', hfollows, hrun'⟩ := hwoven.run_first (by omega) hopens hinner hitems
        (fun _ => rfl) hrun (Or.inr (by omega)) (htame past)
      have hmin : min lines.length (max lines.length past + 1) = lines.length := by omega
      rw [Context.within] at hrun'
      simp only [hmin, ← hlength, Labelling.pos_of_not_above habove] at hrun'
      exact ⟨es', _, hfollows, hrun'⟩
  obtain ⟨labels, past'', hlabelled, hlabels⟩ := hrun.labels le_rfl rfl
    (hlength ▸ s.top_mono (Nat.zero_le _)) hfront
  have hevents : blockEvents lines' = labels.map .block ++ es' :=
    congrArg Prod.fst (sequence_eq_of_run le_rfl
      (fun _ hready => (blockAt_gets le_law hinner.gets hitems.gets hready).1) le_rfl hlabelled)
  rw [hevents]
  exact (follows_labels fun b hb => Or.inr (hlabels b hb)).append
    (hfollows.mono fun _ => Or.inl)

end Document

end Galley.Markdown
