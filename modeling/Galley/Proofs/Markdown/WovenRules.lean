import Galley.Proofs.Markdown.WovenDefinitions
import Mathlib.Tactic

/-!
Leaf blocks without labels inside are found again among labels.

* `Labelling.move`: what is found, with the lines where they are among the labels;
* `Woven.tableRule`, `Woven.codeRule`, …: each rule finds among the labels what it finds without
  them.
-/

namespace Galley.Markdown

/-! ### Moved blocks -/

/-- A block with its lines where they are among labels. -/
def Labelling.moveBlock (s : Labelling) (b : Block) : Block :=
  { b with first := s.pos b.first, past := s.top b.past }

/-- An event with its lines where they are among labels. -/
def Labelling.moveEvent (s : Labelling) : Event → Event
  | .block b => .block (s.moveBlock b)
  | e => e

/-- What is found, with its lines where they are among labels. -/
def Labelling.move (s : Labelling) (found : Found) : Found :=
  (found.1.map s.moveEvent, s.top found.2)

/-- What is found at a line holds no label, and ends in front of the cut. -/
def Labelling.Clear (s : Labelling) (cut n : Nat) (found : Found) : Prop :=
  found.2 ≤ cut ∧ s.Quiet (n + 1) found.2

section Rules

variable {s : Labelling} {cut first n stop : Nat} {ctx : Context} {lines lines' : Lines}
variable (h : Woven s cut first ctx.limit lines lines') (hfirst : first ≤ n) (hn : n < cut)
include h hfirst hn

lemma Woven.tableRule (hstop : stop ≤ ctx.limit)
    (hclear : ∀ found, tableRule ctx lines n stop = some found → s.Clear cut n found) :
    tableRule (ctx.within s cut) lines' (s.pos n) (s.top (min stop cut)) =
      (tableRule ctx lines n stop).map s.move := by
  rw [Markdown.tableRule] at hclear ⊢
  rw [Markdown.tableRule, h.tableHead hstop hfirst hn]
  cases hhead : tableHead? ctx lines n stop with
  | none => rfl
  | some head =>
      rw [hhead] at hclear
      obtain ⟨hcut, hquiet⟩ := hclear _ rfl
      have hle := le_tableRows ctx lines head.length (stop - (n + 2)) 0 (n + 2)
      dsimp only [foundBlock] at hcut hquiet
      rcases hrows : Markdown.tableRows ctx lines head.length (stop - (n + 2)) 0 (n + 2) with
        ⟨cells, past⟩
      rw [hrows] at hle hcut hquiet
      dsimp only at hle hcut hquiet
      have hplace : s.pos n + 2 = s.top (n + 2) := by
        rw [← Labelling.top_add_one (hquiet (n + 1) le_rfl (by omega)), Labelling.top_succ]
      have hrows' := h.tableRows (by omega) hrows hcut (hquiet.mono (by omega) le_rfl)
      simp only [Option.map_some, hplace, hrows', hrows]
      rfl

lemma Woven.codeRule (hstop : stop ≤ ctx.limit)
    (hclear : ∀ found, codeRule ctx lines n stop = some found → s.Clear cut n found) :
    codeRule (ctx.within s cut) lines' (s.pos n) (s.top (min stop cut)) =
      (codeRule ctx lines n stop).map s.move := by
  rw [Markdown.codeRule] at hclear ⊢
  rw [Markdown.codeRule, h.at_pos hfirst hn, isCode_within, ← Labelling.top_succ]
  split_ifs at hclear ⊢ with hdeep
  · obtain ⟨hcut, hquiet⟩ := hclear _ rfl
    dsimp only [foundBlock] at hcut hquiet
    have hend := h.codeEnd hstop (Nat.lt_add_one_of_le hfirst) hn le_rfl rfl hcut hquiet
    simp only [hend, h.between hfirst hcut hquiet]
    rfl
  · rfl

lemma Woven.mathRule
    (hclear : ∀ found, mathRule ctx lines n stop = some found → s.Clear cut n found) :
    mathRule (ctx.within s cut) lines' (s.pos n) (s.top (min stop cut)) =
      (mathRule ctx lines n stop).map s.move := by
  rw [Markdown.mathRule] at hclear ⊢
  rw [Markdown.mathRule, h.at_pos hfirst hn, isCode_within, ← Labelling.top_succ]
  split_ifs at hclear ⊢
  · rfl
  · rfl
  · rfl
  · cases hmath : mathEnd? lines (stop - (n + 1)) (n + 1) with
    | none =>
        rw [h.mathEnd_none (Nat.lt_add_one_of_le hfirst) hmath]
        rfl
    | some past =>
        rw [hmath] at hclear
        obtain ⟨hcut, hquiet⟩ := hclear _ rfl
        rw [h.mathEnd_some (Nat.lt_add_one_of_le hfirst) hmath hcut hquiet]
        rfl

lemma Woven.fenceRule
    (hclear : ∀ found, fenceRule ctx lines n stop = some found → s.Clear cut n found) :
    fenceRule (ctx.within s cut) lines' (s.pos n) (s.top (min stop cut)) =
      (fenceRule ctx lines n stop).map s.move := by
  rw [Markdown.fenceRule] at hclear ⊢
  rw [Markdown.fenceRule, h.at_pos hfirst hn, isCode_within, ← Labelling.top_succ]
  split_ifs at hclear ⊢
  · rfl
  · cases hopening : fenceOpening? (lines.at n).content with
    | none => rfl
    | some opening =>
        rw [hopening] at hclear
        obtain ⟨hcut, hquiet⟩ := hclear _ rfl
        have hle := le_fenceEnd ctx lines opening (stop - (n + 1)) (n + 1)
        dsimp only [foundBlock] at hcut hquiet
        rcases hend : Markdown.fenceEnd ctx lines opening (stop - (n + 1)) (n + 1) with
          ⟨last, closed⟩
        rw [hend] at hle hcut hquiet
        dsimp only at hle hcut hquiet
        have hend' := h.fenceEnd (Nat.lt_add_one_of_le hfirst) hn hend hcut hquiet
        have hlast : last ≤ if closed then last + 1 else last := by
          split_ifs <;> omega
        -- the lines between the marks
        have hbetween :
            lines'.between (s.top (n + 1)) (s.top last) = lines.between (n + 1) last := by
          rcases hle.lt_or_eq with hlt | rfl
          · rw [← Labelling.pos_of_not_above (hquiet (n + 1) le_rfl (hlt.trans_le hlast))]
            exact h.between (by omega) (hlast.trans hcut) (hquiet.mono (Nat.le_succ _) hlast)
          · simp [Lines.between]
        have hpast : s.top (if closed then last + 1 else last) =
            if closed then s.top last + 1 else s.top last := by
          cases closed with
          | true => exact (Labelling.top_add_one (hquiet last hle (Nat.lt_succ_self last))).symm
          | false => rfl
        simp only [Option.map_some, hend', hbetween, hend, Labelling.move, foundBlock, hpast,
          List.map_cons, List.map_nil, Labelling.moveEvent, Labelling.moveBlock, within_depth]

lemma Woven.breakRule (bound bound' : Nat) :
    breakRule (ctx.within s cut) lines' (s.pos n) bound' =
      (breakRule ctx lines n bound).map s.move := by
  rw [Markdown.breakRule, Markdown.breakRule, h.at_pos hfirst hn, opensBreak_within,
    ← Labelling.top_succ]
  split_ifs <;> rfl

lemma Woven.headingRule (bound bound' : Nat) :
    headingRule (ctx.within s cut) lines' (s.pos n) bound' =
      (headingRule ctx lines n bound).map s.move := by
  rw [Markdown.headingRule, Markdown.headingRule, h.at_pos hfirst hn, isCode_within,
    ← Labelling.top_succ]
  split_ifs
  · rfl
  · rw [Option.map_map]
    rfl

lemma Woven.htmlRule
    (hclear : ∀ found, htmlRule ctx lines n stop = some found → s.Clear cut n found) :
    htmlRule (ctx.within s cut) lines' (s.pos n) (s.top (min stop cut)) =
      (htmlRule ctx lines n stop).map s.move := by
  rw [Markdown.htmlRule] at hclear ⊢
  rw [Markdown.htmlRule, h.at_pos hfirst hn, isCode_within, ← Labelling.top_succ]
  split_ifs at hclear ⊢
  · rfl
  · cases hkind : htmlKind? (lines.at n).content with
    | none => rfl
    | some kind =>
        rw [hkind] at hclear
        have hclear := hclear _ rfl
        -- the line behind the block is the same
        obtain ⟨past, hpast, hcut, hquiet⟩ : ∃ past, (if kind.endsAt (lines.at n).content then n + 1
            else Markdown.htmlEnd ctx lines kind (stop - (n + 1)) (n + 1)) = past ∧ past ≤ cut ∧
              s.Quiet (n + 1) past := by
          refine ⟨_, rfl, ?_⟩
          dsimp only at hclear
          split_ifs at hclear ⊢ <;> exact hclear
        have hpast' : (if kind.endsAt (lines.at n).content then s.top (n + 1)
            else Markdown.htmlEnd (ctx.within s cut) lines' kind
              (s.top (min stop cut) - s.top (n + 1)) (s.top (n + 1))) = s.top past := by
          split_ifs at hpast ⊢
          · rw [hpast]
          · exact h.htmlEnd (Nat.lt_add_one_of_le hfirst) hn hpast hcut hquiet
        have hbetween := h.between hfirst hcut hquiet
        have hshort : ∀ part, endsShort (ctx.within s cut) part = endsShort ctx part := fun _ => rfl
        simp only [Option.map_some, hpast, hpast', hbetween, hshort]
        split_ifs <;> rfl

lemma Woven.underlinedRule_some {found : Found} (hstop : stop ≤ ctx.limit)
    (hfound : underlinedRule ctx lines n stop = some found) (hclear : s.Clear cut n found) :
    underlinedRule (ctx.within s cut) lines' (s.pos n) (s.top (min stop cut)) =
      some (s.move found) := by
  rw [underlinedRule] at hfound ⊢
  rw [h.at_pos hfirst hn, isCode_within, ← Labelling.top_succ]
  split_ifs at hfound ⊢
  obtain ⟨last, hlast, rfl⟩ := Option.map_eq_some_iff.mp hfound
  have hle := le_underline hlast
  obtain ⟨hcut, hquiet⟩ := hclear
  dsimp only [foundBlock] at hcut hquiet
  have hplace : s.top last + 1 = s.top (last + 1) :=
    Labelling.top_add_one (hquiet last hle (Nat.lt_succ_self last))
  rw [h.underline_some hstop (Nat.lt_add_one_of_le hfirst) hlast hcut hquiet, Option.map_some,
    paragraphText, h.between hfirst (Nat.le_of_succ_le hcut) (hquiet.mono le_rfl (Nat.le_succ _)),
    hplace]
  rfl

lemma Woven.underlinedRule_none (hstop : stop ≤ ctx.limit)
    (hnone : underlinedRule ctx lines n stop = none)
    (hclear : s.Clear cut n (paragraph ctx lines n)) :
    underlinedRule (ctx.within s cut) lines' (s.pos n) (s.top (min stop cut)) = none := by
  rw [underlinedRule] at hnone ⊢
  rw [h.at_pos hfirst hn, isCode_within, ← Labelling.top_succ]
  split_ifs at hnone ⊢
  · rfl
  · rw [h.underline_none hstop (Nat.lt_add_one_of_le hfirst) hn (Option.map_eq_none_iff.mp hnone)
      rfl
      hclear.2]
    rfl

lemma Woven.paragraph (hclear : s.Clear cut n (paragraph ctx lines n)) :
    paragraph (ctx.within s cut) lines' (s.pos n) = s.move (paragraph ctx lines n) := by
  obtain ⟨hcut, hquiet⟩ := hclear
  dsimp only [Markdown.paragraph, foundBlock] at hcut hquiet
  have hend := h.paragraphEnd (Nat.lt_add_one_of_le hfirst) hn rfl hcut hquiet
  rw [Markdown.paragraph, Markdown.paragraph, within_limit, ← Labelling.top_succ, hend]
  simp only [paragraphText, h.between hfirst hcut hquiet]
  rfl

end Rules

end Galley.Markdown
