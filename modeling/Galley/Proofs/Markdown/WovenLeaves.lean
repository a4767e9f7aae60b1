import Galley.Proofs.Markdown.Woven
import Mathlib.Tactic

/-!
Blocks without blocks inside are found again among labels.

* `endsRows`, `endsFence?`, `endsHtml?`, `underlines`: what one line does to such a block;
* `Woven.tableRows`, `Woven.codeEnd`, `Woven.fenceEnd`, `Woven.htmlEnd`, `Woven.mathEnd_some`,
  `Woven.paragraphEnd`, `Woven.underline_some`: where blocks end, among labels as without them.
-/

namespace Galley.Markdown

/-- A table has no row at the line. -/
def endsRows (ctx : Context) (count : Nat) (completed : Int) (l : Line) : Bool :=
  l.indent < ctx.indent || endsQuote ctx l || (Text.unpad l.content).isEmpty || ctx.isCode l ||
    maxCompletedCells < completed + (count - (rowCells (Text.unpad l.content)).length)

lemma tableRows_succ (ctx : Context) (lines : Lines) (count fuel : Nat) (completed : Int)
    (n : Nat) : tableRows ctx lines count (fuel + 1) completed n =
      if endsRows ctx count completed (lines.at n) then ([], n)
      else
        let cells := rowCells (Text.unpad (lines.at n).content)
        let rows := tableRows ctx lines count fuel (completed + (count - cells.length)) (n + 1)
        (completeRow count cells ++ rows.1, rows.2) := by
  rw [tableRows, endsRows]
  dsimp only
  cases hends : (decide ((lines.at n).indent < ctx.indent) || endsQuote ctx (lines.at n) ||
      (Text.unpad (lines.at n).content).isEmpty || ctx.isCode (lines.at n)) with
  | true => rfl
  | false =>
      rw [if_neg Bool.false_ne_true, Bool.false_or]
      simp only [decide_eq_true_eq]

/-- Whether a fence is over at the line, and closed there. -/
def endsFence? (ctx : Context) (opening : FenceOpening) (l : Line) : Option Bool :=
  match l.content with
  | [] => if l.ended then none else some false
  | c :: cs =>
      if l.indent < ctx.indent then some false
      else if c == opening.mark && !ctx.isCode l &&
          opening.width ≤ ((c :: cs).takeWhile (· == opening.mark)).length &&
          ((c :: cs).dropWhile (· == opening.mark)).all isBlank then some true
      else none

lemma fenceEnd_succ (ctx : Context) (lines : Lines) (opening : FenceOpening) (fuel n : Nat) :
    fenceEnd ctx lines opening (fuel + 1) n =
      match endsFence? ctx opening (lines.at n) with
      | some closed => (n, closed)
      | none => fenceEnd ctx lines opening fuel (n + 1) := by
  rw [fenceEnd, endsFence?]
  cases (lines.at n).content with
  | nil =>
      dsimp only
      split_ifs <;> rfl
  | cons c cs =>
      dsimp only
      split_ifs <;> rfl

/-- Whether raw HTML is over at the line, and with it or in front of it. -/
def endsHtml? (ctx : Context) (kind : HtmlKind) (l : Line) : Option Bool :=
  if l.indent < ctx.indent && !(kind.passesVoid && l.isVoid) then some false
  else if kind.endsAt l.content then some (!l.isVoid)
  else none

lemma htmlEnd_succ (ctx : Context) (lines : Lines) (kind : HtmlKind) (fuel n : Nat) :
    htmlEnd ctx lines kind (fuel + 1) n =
      match endsHtml? ctx kind (lines.at n) with
      | some true => n + 1
      | some false => n
      | none => htmlEnd ctx lines kind fuel (n + 1) := by
  rw [htmlEnd, endsHtml?]
  split_ifs with h1 h2 h3
  · rfl
  · simp [h3]
  · simp [h3]
  · rfl

/-- The line is the underline of a heading. -/
def underlines (ctx : Context) (l : Line) : Bool :=
  l.indent - ctx.indent ≤ 3 && ctx.indent ≤ l.indent && isUnderline l.content

lemma underline_succ (ctx : Context) (lines : Lines) (stop fuel n : Nat) :
    underline? ctx lines stop (fuel + 1) n =
      if (lines.at n).isVoid then none
      else if underlines ctx (lines.at n) then some n
      else if !continues ctx (lines.at n) && endsParagraph ctx lines n stop then none
      else underline? ctx lines stop fuel (n + 1) := rfl

@[simp] lemma underlines_within (s : Labelling) (cut : Nat) (ctx : Context) (l : Line) :
    underlines (ctx.within s cut) l = underlines ctx l := rfl

@[simp] lemma endsFence_within (s : Labelling) (cut : Nat) (ctx : Context) (opening : FenceOpening)
    (l : Line) : endsFence? (ctx.within s cut) opening l = endsFence? ctx opening l := rfl

@[simp] lemma endsHtml_within (s : Labelling) (cut : Nat) (ctx : Context) (kind : HtmlKind)
    (l : Line) : endsHtml? (ctx.within s cut) kind l = endsHtml? ctx kind l := rfl

section Ends

variable {s : Labelling} {n : Nat} {ctx : Context} {l label : Line} (h : s.Sets n l label)
include h

lemma Labelling.Sets.outside (hline : l.indent < ctx.indent) : label.indent < ctx.indent :=
  h.indent_le.trans_lt hline

lemma Labelling.Sets.content_ne_nil : l.content ≠ [] := by
  intro hnil
  have := h.filled
  rw [Line.isVoid, hnil] at this
  exact Bool.noConfusion this

/-- Where a fence stops in front of a line, it stops in front of its label. -/
lemma Labelling.Sets.endsFence {opening : FenceOpening}
    (hline : endsFence? ctx opening l = some false) :
    endsFence? ctx opening label = some false := by
  obtain ⟨c, cs, hcontent⟩ := List.exists_cons_of_ne_nil h.content_ne_nil
  obtain ⟨rest, hrest⟩ := h.isLabel.content_cons
  rw [endsFence?, hcontent] at hline
  dsimp only at hline
  split_ifs at hline with hout
  · rw [endsFence?, hrest]
    exact if_pos (h.outside hout)
  · simp at hline

/-- Where raw HTML stops in front of a line, it stops in front of its label. -/
lemma Labelling.Sets.endsHtml {kind : HtmlKind} (hline : endsHtml? ctx kind l = some false) :
    endsHtml? ctx kind label = some false := by
  rw [endsHtml?, h.filled, Bool.and_false] at hline
  split_ifs at hline with hout
  · simp only [Bool.not_false, Bool.and_true, decide_eq_true_eq] at hout
    rw [endsHtml?, h.isLabel.filled, Bool.and_false]
    simp [h.outside hout]
  · simp at hline

end Ends

@[simp] lemma endsRows_within (s : Labelling) (cut : Nat) (ctx : Context) (count : Nat)
    (completed : Int) (l : Line) :
    endsRows (ctx.within s cut) count completed l = endsRows ctx count completed l := rfl

lemma endsRows_label {id : Text} {ctx : Context} {count : Nat} {completed : Int} {l : Line}
    (h : IsLabel id l) : endsRows ctx count completed l = true := by
  cases hcode : ctx.isCode l with
  | true => simp [endsRows, hcode]
  | false => simp [endsRows, h.endsQuote hcode]

lemma isCode_of_continues {ctx : Context} {l : Line} (h : continues ctx l = false) :
    ctx.isCode l = false := by
  simp only [continues, Bool.or_eq_false_iff, decide_eq_false_iff_not] at h
  simp only [Context.isCode, decide_eq_false_iff_not]
  omega

/-- Where there is room for the rule of a table, the end of the range does not matter. -/
lemma endsParagraph_of_le {ctx : Context} {lines : Lines} {line stop stop' : Nat}
    (h : line + 2 ≤ stop) (h' : line + 2 ≤ stop') :
    endsParagraph ctx lines line stop = endsParagraph ctx lines line stop' := by
  simp only [endsParagraph, tableHead?, Nat.not_lt.mpr h, Nat.not_lt.mpr h']

/-- Where a paragraph is over and the line is not blank, the line ends it. -/
lemma ends_of_paragraphEnd {ctx : Context} {lines : Lines} {fuel n : Nat}
    (hfilled : (lines.at n).isVoid = false) (h : paragraphEnd ctx lines (fuel + 1) n ≤ n) :
    continues ctx (lines.at n) = false ∧ endsParagraph ctx lines n ctx.limit = true := by
  rw [paragraphEnd, if_neg (by rw [hfilled]; exact Bool.false_ne_true)] at h
  split_ifs at h with hends
  · simpa only [Bool.and_eq_true, Bool.not_eq_true'] using hends
  · have := le_paragraphEnd ctx lines fuel (n + 1)
    omega

section Loops

variable {s : Labelling} {cut first n stop past : Nat} {ctx : Context} {lines lines' : Lines}
variable (h : Woven s cut first ctx.limit lines lines')
include h

/-- The lines of a block without labels inside are the same. -/
lemma Woven.between {a b : Nat} (hfirst : first ≤ a) (hcut : b ≤ cut)
    (hquiet : s.Quiet (a + 1) b) : lines'.between (s.pos a) (s.top b) = lines.between a b := by
  rcases le_or_gt b a with hle | hlt
  · have hempty : s.top b - s.pos a = 0 := by
      have := s.top_mono hle
      have := s.top_le_pos a
      omega
    rw [Lines.between, Lines.between, hempty, Nat.sub_eq_zero_of_le hle, List.take_zero,
      List.take_zero]
  · have hwidth : s.top b - s.pos a = b - a := by
      rw [hquiet.top_eq hlt]
      omega
    rw [Lines.between, Lines.between, hwidth]
    refine List.ext_getElem? fun k => ?_
    rw [List.getElem?_take, List.getElem?_take, List.getElem?_drop, List.getElem?_drop]
    split_ifs with hk
    · rw [← hquiet.pos_add (by omega)]
      exact h.line (a + k) (by omega) (by omega)
    · rfl

lemma Woven.tableRows {count : Nat} {completed : Int} {cells : List Text} (hfirst : first < n)
    (hrows : tableRows ctx lines count (stop - n) completed n = (cells, past)) (hcut : past ≤ cut)
    (hquiet : s.Quiet n past) :
    tableRows (ctx.within s cut) lines' count (s.top (min stop cut) - s.top n) completed (s.top n) =
      (cells, s.top past) := by
  obtain ⟨fuel, hfuel⟩ : ∃ fuel, stop - n = fuel := ⟨_, rfl⟩
  induction fuel generalizing n completed cells with
  | zero =>
      rw [hfuel] at hrows
      obtain ⟨rfl, rfl⟩ := Prod.mk.inj hrows
      rw [Labelling.rest_zero (Or.inl (by omega))]
      rfl
  | succ fuel ih =>
      rw [hfuel, tableRows_succ] at hrows
      split_ifs at hrows with hends
      · -- the table is over at the line, or at its label
        obtain ⟨rfl, rfl⟩ := Prod.mk.inj hrows
        rcases h.here stop hfirst hcut with hrest | ⟨rest, hrest, hn, hquiet | ⟨-, hsets⟩⟩
        · rw [hrest]
          rfl
        · rw [hrest, tableRows_succ, h.at_top hfirst.le hn hquiet, endsRows_within, if_pos hends]
        · rw [hrest, tableRows_succ, endsRows_within, if_pos (endsRows_label hsets.isLabel)]
      · obtain ⟨rfl, rfl⟩ := Prod.mk.inj hrows
        have hmore := le_tableRows ctx lines count fuel
          (completed + (count - (rowCells (Text.unpad (lines.at n).content)).length)) (n + 1)
        have habove := hquiet n le_rfl hmore
        rw [Labelling.rest_succ (by omega) (by omega) habove, tableRows_succ,
          h.at_top hfirst.le (by omega) habove, endsRows_within, if_neg hends,
          Labelling.top_add_one habove]
        have hfuel' : stop - (n + 1) = fuel := by omega
        have hrows := @ih (n + 1)
          (completed + (count - (rowCells (Text.unpad (lines.at n).content)).length)) _ (by omega)
          (by rw [hfuel']) (hquiet.mono n.le_succ le_rfl) hfuel'
        simp only [hrows]

/-- Code ends at the same line; `last` is the line behind the last one of code so far. -/
lemma Woven.codeEnd {last : Nat} (hstop : stop ≤ ctx.limit) (hfirst : first < n) (hn : n ≤ cut)
    (hlast : last ≤ n) (hcode : codeEnd ctx lines (stop - n) n last = past) (hcut : past ≤ cut)
    (hquiet : s.Quiet n past) :
    codeEnd (ctx.within s cut) lines' (s.top (min stop cut) - s.top n) (s.top n) (s.top last) =
      s.top past := by
  obtain ⟨fuel, hfuel⟩ : ∃ fuel, stop - n = fuel := ⟨_, rfl⟩
  induction fuel generalizing n last with
  | zero =>
      rw [hfuel] at hcode
      obtain rfl : last = past := hcode
      rw [Labelling.rest_zero (Or.inl (by omega))]
      rfl
  | succ fuel ih =>
      have hfuel' : stop - (n + 1) = fuel := by omega
      rw [hfuel, Markdown.codeEnd] at hcode
      split_ifs at hcode with hvoid hdeep
      · have hlt := h.lt_cut hn (by omega) hvoid
        have habove := h.above_of_void hfirst hlt hvoid
        rw [Labelling.rest_succ (by omega) hlt habove, Markdown.codeEnd,
          h.at_top hfirst.le hlt habove, if_pos hvoid, Labelling.top_add_one habove]
        exact ih (by omega) hlt (by omega) (by rw [hfuel', hcode])
          (hquiet.mono n.le_succ le_rfl) hfuel'
      · have hmore : n + 1 ≤ past := hcode ▸ le_codeEnd ctx lines fuel (n + 1) (n + 1) le_rfl
        have habove := hquiet n le_rfl hmore
        have hlt : n < cut := by omega
        rw [Labelling.rest_succ (by omega) hlt habove, Markdown.codeEnd,
          h.at_top hfirst.le hlt habove, if_neg hvoid, isCode_within, if_pos hdeep,
          Labelling.top_add_one habove]
        exact ih (by omega) hlt le_rfl (by rw [hfuel', hcode]) (hquiet.mono n.le_succ le_rfl) hfuel'
      · obtain rfl : last = past := hcode
        rcases h.here stop hfirst hn with hrest | ⟨rest, hrest, hlt, habove | ⟨-, hsets⟩⟩
        · rw [hrest]
          rfl
        · rw [hrest, Markdown.codeEnd, h.at_top hfirst.le hlt habove, if_neg hvoid, isCode_within,
            if_neg hdeep]
        · have hshallow := hsets.shallow (Bool.eq_false_iff.mpr hdeep)
          rw [hrest, Markdown.codeEnd, hsets.isLabel.filled, isCode_within, hshallow]
          rfl

/-- A fence ends at the same line, and is closed there or not. -/
lemma Woven.fenceEnd {opening : FenceOpening} {last : Nat} {closed : Bool}
    (hfirst : first < n) (hn : n ≤ cut)
    (hfence : fenceEnd ctx lines opening (stop - n) n = (last, closed))
    (hcut : (if closed then last + 1 else last) ≤ cut)
    (hquiet : s.Quiet n (if closed then last + 1 else last)) :
    fenceEnd (ctx.within s cut) lines' opening (s.top (min stop cut) - s.top n) (s.top n) =
      (s.top last, closed) := by
  obtain ⟨fuel, hfuel⟩ : ∃ fuel, stop - n = fuel := ⟨_, rfl⟩
  induction fuel generalizing n with
  | zero =>
      rw [hfuel] at hfence
      obtain ⟨rfl, rfl⟩ := Prod.mk.inj hfence
      rw [Labelling.rest_zero (Or.inl (by omega))]
      rfl
  | succ fuel ih =>
      have hfuel' : stop - (n + 1) = fuel := by omega
      rw [hfuel, fenceEnd_succ] at hfence
      cases hends : endsFence? ctx opening (lines.at n) with
      | none =>
          rw [hends] at hfence
          dsimp only at hfence
          have hmore : n + 1 ≤ last := by
            have := le_fenceEnd ctx lines opening fuel (n + 1)
            rwa [hfence] at this
          have habove := hquiet n le_rfl (by split_ifs <;> omega)
          have hlt : n < cut := by
            split_ifs at hcut <;> omega
          rw [Labelling.rest_succ (by omega) hlt habove, fenceEnd_succ,
            h.at_top hfirst.le hlt habove, endsFence_within, hends, Labelling.top_add_one habove]
          exact ih (by omega) hlt (by rw [hfuel', hfence]) (hquiet.mono n.le_succ le_rfl) hfuel'
      | some ended =>
          rw [hends] at hfence
          obtain ⟨rfl, rfl⟩ := Prod.mk.inj hfence
          cases ended with
          | true =>
              have habove := hquiet n le_rfl n.lt_succ_self
              have hlt : n < cut := hcut
              rw [Labelling.rest_succ (by omega) hlt habove, fenceEnd_succ,
                h.at_top hfirst.le hlt habove, endsFence_within, hends]
          | false =>
              rcases h.here stop hfirst hn with hrest | ⟨rest, hrest, hlt, habove | ⟨-, hsets⟩⟩
              · rw [hrest]
                rfl
              · rw [hrest, fenceEnd_succ, h.at_top hfirst.le hlt habove, endsFence_within, hends]
              · rw [hrest, fenceEnd_succ, endsFence_within, hsets.endsFence hends]

/-- Raw HTML ends at the same line. -/
lemma Woven.htmlEnd {kind : HtmlKind} (hfirst : first < n) (hn : n ≤ cut)
    (hhtml : htmlEnd ctx lines kind (stop - n) n = past) (hcut : past ≤ cut)
    (hquiet : s.Quiet n past) :
    htmlEnd (ctx.within s cut) lines' kind (s.top (min stop cut) - s.top n) (s.top n) =
      s.top past := by
  obtain ⟨fuel, hfuel⟩ : ∃ fuel, stop - n = fuel := ⟨_, rfl⟩
  induction fuel generalizing n with
  | zero =>
      rw [hfuel] at hhtml
      obtain rfl : n = past := hhtml
      rw [Labelling.rest_zero (Or.inl (by omega))]
      rfl
  | succ fuel ih =>
      have hfuel' : stop - (n + 1) = fuel := by omega
      rw [hfuel, htmlEnd_succ] at hhtml
      cases hends : endsHtml? ctx kind (lines.at n) with
      | none =>
          rw [hends] at hhtml
          dsimp only at hhtml
          have hmore : n + 1 ≤ past := hhtml ▸ le_htmlEnd ctx lines kind fuel (n + 1)
          have habove := hquiet n le_rfl hmore
          have hlt : n < cut := by omega
          rw [Labelling.rest_succ (by omega) hlt habove, htmlEnd_succ,
            h.at_top hfirst.le hlt habove, endsHtml_within, hends, Labelling.top_add_one habove]
          exact ih (by omega) hlt (by rw [hfuel', hhtml]) (hquiet.mono n.le_succ le_rfl) hfuel'
      | some within =>
          rw [hends] at hhtml
          cases within with
          | true =>
              obtain rfl : n + 1 = past := hhtml
              have habove := hquiet n le_rfl n.lt_succ_self
              rw [Labelling.rest_succ (by omega) hcut habove, htmlEnd_succ,
                h.at_top hfirst.le hcut habove, endsHtml_within, hends]
              exact Labelling.top_add_one habove
          | false =>
              obtain rfl : n = past := hhtml
              rcases h.here stop hfirst hn with hrest | ⟨rest, hrest, hlt, habove | ⟨-, hsets⟩⟩
              · rw [hrest]
                rfl
              · rw [hrest, htmlEnd_succ, h.at_top hfirst.le hlt habove, endsHtml_within, hends]
              · rw [hrest, htmlEnd_succ, endsHtml_within, hsets.endsHtml hends]

/-- Displayed math ends at the same line. -/
lemma Woven.mathEnd_some (hfirst : first < n) (hmath : mathEnd? lines (stop - n) n = some past)
    (hcut : past ≤ cut) (hquiet : s.Quiet n past) :
    mathEnd? lines' (s.top (min stop cut) - s.top n) (s.top n) = some (s.top past) := by
  obtain ⟨fuel, hfuel⟩ : ∃ fuel, stop - n = fuel := ⟨_, rfl⟩
  induction fuel generalizing n with
  | zero =>
      rw [hfuel] at hmath
      simp [mathEnd?] at hmath
  | succ fuel ih =>
      have hlt := lt_mathEnd hmath
      have habove := hquiet n le_rfl hlt
      rw [hfuel, mathEnd?] at hmath
      rw [Labelling.rest_succ (by omega) (by omega) habove, mathEnd?,
        h.at_top hfirst.le (by omega) habove, Labelling.top_add_one habove]
      split_ifs at hmath ⊢ with hends
      · obtain rfl := Option.some.inj hmath
        rfl
      · have hfuel' : stop - (n + 1) = fuel := by omega
        exact ih (by omega) (by rw [hfuel', hmath]) (hquiet.mono n.le_succ le_rfl) hfuel'

/-- Displayed math that does not end, does not end at a label. -/
lemma Woven.mathEnd_none (hfirst : first < n) (hmath : mathEnd? lines (stop - n) n = none) :
    mathEnd? lines' (s.top (min stop cut) - s.top n) (s.top n) = none := by
  obtain ⟨fuel, hfuel⟩ : ∃ fuel, stop - n = fuel := ⟨_, rfl⟩
  induction fuel generalizing n with
  | zero =>
      rw [Labelling.rest_zero (Or.inl (by omega))]
      rfl
  | succ fuel ih =>
      rcases le_or_gt cut n with hn | hn
      · rw [Labelling.rest_zero (Or.inr hn)]
        rfl
      · have hfuel' : stop - (n + 1) = fuel := by omega
        rw [hfuel, mathEnd?] at hmath
        split_ifs at hmath with hends
        have hline : mathEnd? lines' (s.top (min stop cut) - s.pos n) (s.pos n) = none := by
          rw [Labelling.rest_pos (by omega) hn, mathEnd?, h.at_pos hfirst.le hn, if_neg hends,
            ← Labelling.top_succ]
          exact ih (by omega) (by rw [hfuel', hmath]) hfuel'
        cases habove : s.above n with
        | true =>
            rw [Labelling.rest_above (by omega) hn habove, mathEnd?,
              (h.sets n hfirst hn habove).isLabel.endsMath, if_neg Bool.false_ne_true,
              ← Labelling.pos_of_above habove]
            exact hline
        | false =>
            rw [← Labelling.pos_of_not_above habove]
            exact hline

/-- A paragraph ends at the same line. -/
lemma Woven.paragraphEnd (hfirst : first < n) (hn : n ≤ cut)
    (hparagraph : paragraphEnd ctx lines (ctx.limit - n) n = past) (hcut : past ≤ cut)
    (hquiet : s.Quiet n past) :
    paragraphEnd (ctx.within s cut) lines' (s.top (min ctx.limit cut) - s.top n) (s.top n) =
      s.top past := by
  obtain ⟨fuel, hfuel⟩ : ∃ fuel, ctx.limit - n = fuel := ⟨_, rfl⟩
  induction fuel generalizing n with
  | zero =>
      rw [hfuel] at hparagraph
      obtain rfl : n = past := hparagraph
      rw [Labelling.rest_zero (Or.inl (by omega))]
      rfl
  | succ fuel ih =>
      have hfuel' : ctx.limit - (n + 1) = fuel := by omega
      rw [hfuel, Markdown.paragraphEnd] at hparagraph
      split_ifs at hparagraph with hvoid hends
      · obtain rfl : n = past := hparagraph
        have hlt := h.lt_cut hn (by omega) hvoid
        have habove := h.above_of_void hfirst hlt hvoid
        rw [Labelling.rest_succ (by omega) hlt habove, Markdown.paragraphEnd,
          h.at_top hfirst.le hlt habove, if_pos hvoid]
      · obtain rfl : n = past := hparagraph
        rcases h.here ctx.limit hfirst hn with hrest | ⟨rest, hrest, hlt, habove | ⟨-, hsets⟩⟩
        · rw [hrest]
          rfl
        · have hends' := h.endsParagraph_top le_rfl hfirst.le hlt habove
          rw [hrest, Markdown.paragraphEnd, h.at_top hfirst.le hlt habove, if_neg hvoid,
            continues_within, within_limit, hends', if_pos hends]
        · simp only [Bool.and_eq_true, Bool.not_eq_true'] at hends
          have hcontinues := hsets.continues hends.1
          have hends' := endsParagraph_label (ctx.within s cut) lines' (s.top (min ctx.limit cut))
            hsets.isLabel (isCode_of_continues hcontinues)
          rw [hrest, Markdown.paragraphEnd, hsets.isLabel.filled, continues_within, hcontinues,
            within_limit, hends']
          rfl
      · have hmore : n + 1 ≤ past := hparagraph ▸ le_paragraphEnd ctx lines fuel (n + 1)
        have habove := hquiet n le_rfl hmore
        have hlt : n < cut := by omega
        have hends' := h.endsParagraph_top le_rfl hfirst.le hlt habove
        rw [Labelling.rest_succ (by omega) hlt habove, Markdown.paragraphEnd,
          h.at_top hfirst.le hlt habove, if_neg hvoid, continues_within, within_limit, hends',
          if_neg hends, Labelling.top_add_one habove]
        exact ih (by omega) hlt (by rw [hfuel', hparagraph]) (hquiet.mono n.le_succ le_rfl) hfuel'

/-- The underline of a heading is found at the same line. -/
lemma Woven.underline_some {last : Nat} (hstop : stop ≤ ctx.limit) (hfirst : first < n)
    (hunderline : underline? ctx lines stop (stop - n) n = some last) (hcut : last < cut)
    (hquiet : s.Quiet n (last + 1)) :
    underline? (ctx.within s cut) lines' (s.top (min stop cut)) (s.top (min stop cut) - s.top n)
      (s.top n) = some (s.top last) := by
  obtain ⟨fuel, hfuel⟩ : ∃ fuel, stop - n = fuel := ⟨_, rfl⟩
  induction fuel generalizing n with
  | zero =>
      rw [hfuel] at hunderline
      simp [underline?] at hunderline
  | succ fuel ih =>
      have hle := le_underline hunderline
      have habove := hquiet n le_rfl (by omega)
      have hlt : n < cut := by omega
      have hends := h.endsParagraph_top hstop hfirst.le hlt habove
      rw [hfuel, underline_succ] at hunderline
      rw [Labelling.rest_succ (by omega) hlt habove, underline_succ, h.at_top hfirst.le hlt habove,
        hends, underlines_within, continues_within, Labelling.top_add_one habove]
      split_ifs at hunderline with hvoid hline hgoes
      · obtain rfl := Option.some.inj hunderline
        rw [if_neg hvoid, if_pos hline]
      · have hfuel' : stop - (n + 1) = fuel := by omega
        rw [if_neg hvoid, if_neg hline, if_neg hgoes]
        exact ih (by omega) (by rw [hfuel', hunderline]) (hquiet.mono n.le_succ le_rfl) hfuel'

/-- A paragraph that has no underline has none among labels. -/
lemma Woven.underline_none (hstop : stop ≤ ctx.limit) (hfirst : first < n) (hn : n ≤ cut)
    (hunderline : underline? ctx lines stop (stop - n) n = none)
    (hparagraph : Markdown.paragraphEnd ctx lines (ctx.limit - n) n = past)
    (hquiet : s.Quiet n past) :
    underline? (ctx.within s cut) lines' (s.top (min stop cut)) (s.top (min stop cut) - s.top n)
      (s.top n) = none := by
  obtain ⟨fuel, hfuel⟩ : ∃ fuel, stop - n = fuel := ⟨_, rfl⟩
  induction fuel generalizing n with
  | zero =>
      rw [Labelling.rest_zero (Or.inl (by omega))]
      rfl
  | succ fuel ih =>
      have hfuel' : stop - (n + 1) = fuel := by omega
      have hlimit : ctx.limit - n = ctx.limit - (n + 1) + 1 := by omega
      rw [hfuel, underline_succ] at hunderline
      rcases h.here stop hfirst hn with hrest | ⟨rest, hrest, hlt, habove | ⟨habove, hsets⟩⟩
      · rw [hrest]
        rfl
      · have hends := h.endsParagraph_top hstop hfirst.le hlt habove
        rw [Labelling.rest_succ (by omega) hlt habove, underline_succ,
          h.at_top hfirst.le hlt habove, hends, underlines_within, continues_within,
          Labelling.top_add_one habove]
        split_ifs at hunderline with hvoid hline hgoes
        · rw [if_pos hvoid]
        · rw [if_neg hvoid, if_neg hline, if_pos hgoes]
        · rw [if_neg hvoid, if_neg hline, if_neg hgoes]
          rw [hlimit, Markdown.paragraphEnd] at hparagraph
          split_ifs at hparagraph with hends'
          · -- the paragraph is over on account of a table, whose rule is not in the range
            have hshort : stop ≤ n + 1 := by
              by_contra hle
              have hsame : Markdown.endsParagraph ctx lines n stop =
                  Markdown.endsParagraph ctx lines n ctx.limit :=
                endsParagraph_of_le (by omega) (by omega)
              rw [hsame] at hgoes
              exact hgoes hends'
            rw [Labelling.rest_zero (Or.inl hshort)]
            rfl
          · exact ih (by omega) hlt (by rw [hfuel', hunderline]) hparagraph
              (hquiet.mono n.le_succ le_rfl) hfuel'
      · -- the paragraph is over at the line, and at its label
        have hover : past ≤ n := by
          by_contra hmore
          have := hquiet n le_rfl (Nat.lt_of_not_le hmore)
          rw [habove] at this
          exact Bool.noConfusion this
        rw [hlimit] at hparagraph
        have hends := ends_of_paragraphEnd hsets.filled (hparagraph ▸ hover)
        have hcontinues := hsets.continues hends.1
        have hends' := endsParagraph_label (ctx.within s cut) lines' (s.top (min stop cut))
          hsets.isLabel (isCode_of_continues hcontinues)
        rw [hrest, underline_succ, hsets.isLabel.filled, continues_within, hcontinues, hends',
          underlines, hsets.isLabel.isUnderline, Bool.and_false]
        rfl

end Loops

end Galley.Markdown
