import Galley.Proofs.Markdown.WovenLeaves
import Galley.Proofs.Markdown.WovenLinks
import Mathlib.Tactic

/-!
Link definitions are found again among labels.

* `Woven.continuations_interleaved`, `Woven.continuations_split`: the lines that may belong to a
  definition come with labels between them, from the first label on;
* `Woven.definitionRule_some`, `Woven.definitionRule_none`: a definition without labels inside is
  found again, and in front of a paragraph none is found.
-/

namespace Galley.Markdown

lemma IsLabel.contentWithBreak {id : Text} {l : Line} (h : IsLabel id l) :
    l.contentWithBreak = labelLine id ++ ['\n'] := by
  rw [Line.contentWithBreak, h.content_eq, h.ended]
  rfl

/-- The line does not go on with a link definition in front of it. -/
def stopsDefinition (ctx : Context) (lines : Lines) (n stop : Nat) : Bool :=
  !(ctx.isCode (lines.at n) || (lines.at n).indent < 0) && endsDefinition ctx lines n stop

lemma continuations_succ (ctx : Context) (lines : Lines) (fuel n : Nat) :
    continuations ctx lines (fuel + 1) n =
      if (lines.at n).isVoid then []
      else if stopsDefinition ctx lines n ctx.limit then []
      else (lines.at n).contentWithBreak :: continuations ctx lines fuel (n + 1) := rfl

lemma continuations_eq_nil {ctx : Context} {lines : Lines} {n : Nat} (fuel : Nat)
    (h : (lines.at n).isVoid = true ∨ stopsDefinition ctx lines n ctx.limit = true) :
    continuations ctx lines fuel n = [] := by
  cases fuel with
  | zero => rfl
  | succ fuel =>
      rw [continuations_succ]
      rcases h with h | h
      · exact if_pos h
      · rw [if_pos h]
        exact ite_self _

/-- What opens a list behind a paragraph opens one anywhere. -/
lemma opensList_of_behind {ctx : Context} {l : Line} (h : opensList ctx l true = true) :
    opensList ctx l false = true := by
  rw [opensList, listOpening?] at h ⊢
  split_ifs at h ⊢ with hdeep
  · exact h
  · obtain ⟨m, hm⟩ := Option.isSome_iff_exists.mp h
    rw [(Option.filter_eq_some_iff.mp hm).1]
    rfl

lemma endsDefinition_of_endsParagraph {ctx : Context} {lines : Lines} {n stop : Nat}
    (h : endsParagraph ctx lines n stop = true) : endsDefinition ctx lines n stop = true := by
  simp only [endsParagraph, endsDefinition, Bool.or_eq_true] at h ⊢
  have := @opensList_of_behind ctx (lines.at n)
  tauto

lemma continues_eq (ctx : Context) (l : Line) :
    continues ctx l = (ctx.isCode l || l.indent < 0) := by
  rw [continues, Context.isCode]
  congr 1

/-- Where a paragraph is over, a definition does not go on. -/
lemma stopsDefinition_of_paragraphEnd {ctx : Context} {lines : Lines} {fuel n : Nat}
    (h : paragraphEnd ctx lines (fuel + 1) n ≤ n) :
    (lines.at n).isVoid = true ∨ stopsDefinition ctx lines n ctx.limit = true := by
  cases hfilled : (lines.at n).isVoid with
  | true => exact Or.inl rfl
  | false =>
      obtain ⟨hcontinues, hends⟩ := ends_of_paragraphEnd hfilled h
      right
      rw [stopsDefinition, ← continues_eq, hcontinues, endsDefinition_of_endsParagraph hends]
      rfl

/-- Where a line ends a definition, its label does. -/
lemma Labelling.Sets.stopsDefinition {s : Labelling} {n bound : Nat} {ctx : Context}
    {lines lines' : Lines} (h : s.Sets n (lines.at n) (lines'.at (s.top n)))
    (hline : stopsDefinition ctx lines n bound = true) (cut bound' : Nat) :
    Markdown.stopsDefinition (ctx.within s cut) lines' (s.top n) bound' = true := by
  rw [Markdown.stopsDefinition, ← continues_eq, Bool.and_eq_true, Bool.not_eq_true'] at hline
  have hcontinues := h.continues hline.1
  rw [Markdown.stopsDefinition, ← continues_eq, continues_within, hcontinues,
    endsDefinition_label (ctx.within s cut) lines' bound' h.isLabel
      (isCode_of_continues hcontinues)]
  rfl

section Woven

variable {s : Labelling} {cut first n stop past : Nat} {ctx : Context} {lines lines' : Lines}
variable (h : Woven s cut first ctx.limit lines lines')
include h

lemma Woven.stopsDefinition (hfirst : first ≤ n) (hn : n < cut) :
    stopsDefinition (ctx.within s cut) lines' (s.pos n) (s.top (min ctx.limit cut)) =
      stopsDefinition ctx lines n ctx.limit := by
  rw [Markdown.stopsDefinition, h.endsDefinition le_rfl hfirst hn, h.at_pos hfirst hn]
  rfl

lemma Woven.stopsDefinition_top (hfirst : first ≤ n) (hn : n < cut) (hquiet : s.above n = false) :
    Markdown.stopsDefinition (ctx.within s cut) lines' (s.top n) (s.top (min ctx.limit cut)) =
      Markdown.stopsDefinition ctx lines n ctx.limit := by
  rw [← Labelling.pos_of_not_above hquiet]
  exact h.stopsDefinition hfirst hn

/-- The lines that may belong to a definition come with the labels that are between them. -/
lemma Woven.continuations_interleaved (hfirst : first < n) :
    Interleaved (continuations ctx lines (ctx.limit - n) n)
      (continuations (ctx.within s cut) lines'
        (s.top (min ctx.limit cut) - s.top n) (s.top n)) := by
  obtain ⟨fuel, hfuel⟩ : ∃ fuel, ctx.limit - n = fuel := ⟨_, rfl⟩
  induction fuel generalizing n with
  | zero =>
      rw [Labelling.rest_zero (Or.inl (by omega))]
      exact .nil _
  | succ fuel ih =>
      rcases le_or_gt cut n with hn | hn
      · rw [Labelling.rest_zero (Or.inr hn)]
        exact .nil _
      · have hfuel' : ctx.limit - (n + 1) = fuel := by omega
        have hmore := ih (n := n + 1) (by omega) hfuel'
        have hstops := h.stopsDefinition hfirst.le hn
        -- from the line itself on
        have hline : Interleaved (continuations ctx lines (ctx.limit - n) n)
            (continuations (ctx.within s cut) lines' (s.top (min ctx.limit cut) - s.pos n)
              (s.pos n)) := by
          rw [hfuel, Labelling.rest_pos (by omega) hn, continuations_succ, continuations_succ,
            h.at_pos hfirst.le hn, within_limit, hstops, ← Labelling.top_succ]
          split_ifs
          · exact .nil _
          · exact .nil _
          · rw [← hfuel']
            exact .keep _ hmore
        cases habove : s.above n with
        | false =>
            rw [← Labelling.pos_of_not_above habove]
            exact hline
        | true =>
            have hsets := h.sets n hfirst hn habove
            rw [Labelling.rest_above (by omega) hn habove, continuations_succ]
            rw [hsets.isLabel.filled, if_neg Bool.false_ne_true]
            split_ifs with hends
            · exact .nil _
            · rw [hsets.isLabel.contentWithBreak, ← Labelling.pos_of_above habove]
              -- where the label goes on with the definition, its line does
              have hgoes : ¬ Markdown.stopsDefinition ctx lines n ctx.limit = true :=
                fun hstops' => hends (hsets.stopsDefinition hstops' _ _)
              have hcons : continuations ctx lines (ctx.limit - n) n =
                  (lines.at n).contentWithBreak :: continuations ctx lines fuel (n + 1) := by
                rw [hfuel, continuations_succ, hsets.filled, if_neg Bool.false_ne_true,
                  if_neg hgoes]
              rw [hcons] at hline ⊢
              exact .label hsets.isLabel.name hline

/-- In front of a line up to which there are no labels, the lines that may belong to a definition
are the same. -/
lemma Woven.continuations_split (hfirst : first < n) (hcut : past ≤ cut) (hquiet : s.Quiet n past) :
    ∃ ps ts ts', continuations ctx lines (ctx.limit - n) n = ps ++ ts ∧
      continuations (ctx.within s cut) lines' (s.top (min ctx.limit cut) - s.top n) (s.top n) =
        ps ++ ts' ∧ Interleaved ts ts' ∧ (ts = [] ∨ past ≤ n + ps.length) := by
  obtain ⟨fuel, hfuel⟩ : ∃ fuel, ctx.limit - n = fuel := ⟨_, rfl⟩
  induction fuel generalizing n with
  | zero =>
      refine ⟨[], [], [], ?_, ?_, .nil _, Or.inl rfl⟩
      · rw [hfuel]
        rfl
      · rw [Labelling.rest_zero (Or.inl (by omega))]
        rfl
  | succ fuel ih =>
      rcases le_or_gt past n with hle | hlt
      · exact ⟨[], _, _, rfl, rfl, h.continuations_interleaved hfirst, Or.inr hle⟩
      · have habove := hquiet n le_rfl hlt
        have hn : n < cut := by omega
        have hfuel' : ctx.limit - (n + 1) = fuel := by omega
        have hstops := h.stopsDefinition_top hfirst.le hn habove
        obtain ⟨ps, ts, ts', hlines, hlines', hrest, hlong⟩ :=
          ih (n := n + 1) (by omega) (hquiet.mono n.le_succ le_rfl) hfuel'
        rw [hfuel, Labelling.rest_succ (by omega) hn habove, continuations_succ, continuations_succ,
          h.at_top hfirst.le hn habove, within_limit, hstops, Labelling.top_add_one habove]
        split_ifs
        · exact ⟨[], [], [], rfl, rfl, .nil _, Or.inl rfl⟩
        · exact ⟨[], [], [], rfl, rfl, .nil _, Or.inl rfl⟩
        · rw [hfuel'] at hlines
          refine ⟨(lines.at n).contentWithBreak :: ps, ts, ts', ?_, ?_, hrest, ?_⟩
          · rw [hlines, List.cons_append]
          · rw [hlines', List.cons_append]
          · rw [List.length_cons]
            exact hlong.imp_right fun hle => by omega

/-- The lines that may belong to a definition go no further than a paragraph does. -/
lemma Woven.continuations_paragraph (hfirst : first < n) (hn : n ≤ cut)
    (hparagraph : Markdown.paragraphEnd ctx lines (ctx.limit - n) n = past) (hcut : past ≤ cut)
    (hquiet : s.Quiet n past) :
    continuations (ctx.within s cut) lines' (s.top (min ctx.limit cut) - s.top n) (s.top n) =
      continuations ctx lines (ctx.limit - n) n := by
  obtain ⟨fuel, hfuel⟩ : ∃ fuel, ctx.limit - n = fuel := ⟨_, rfl⟩
  induction fuel generalizing n with
  | zero =>
      rw [hfuel, Labelling.rest_zero (Or.inl (by omega))]
      rfl
  | succ fuel ih =>
      have hfuel' : ctx.limit - (n + 1) = fuel := by omega
      have hle := le_paragraphEnd ctx lines (ctx.limit - n) n
      rw [hparagraph] at hle
      rw [hfuel] at hparagraph ⊢
      rcases hle.lt_or_eq with hmore | rfl
      · have habove := hquiet n le_rfl hmore
        have hlt : n < cut := by omega
        have hstops := h.stopsDefinition_top hfirst.le hlt habove
        have hgoes : Markdown.paragraphEnd ctx lines (ctx.limit - (n + 1)) (n + 1) = past := by
          rw [hfuel']
          rw [Markdown.paragraphEnd] at hparagraph
          split_ifs at hparagraph
          · omega
          · omega
          · exact hparagraph
        rw [Labelling.rest_succ (by omega) hlt habove, continuations_succ, continuations_succ,
          h.at_top hfirst.le hlt habove, within_limit, hstops, Labelling.top_add_one habove,
          ih (by omega) hlt hgoes (hquiet.mono n.le_succ le_rfl) hfuel', hfuel']
      · -- the paragraph is over, and so are the lines of a definition
        have hends := stopsDefinition_of_paragraphEnd hparagraph.le
        rw [continuations_eq_nil _ hends]
        rcases h.here ctx.limit hfirst hn with hrest | ⟨rest, hrest, hlt, habove | ⟨-, hsets⟩⟩
        · rw [hrest]
          rfl
        · refine continuations_eq_nil _ ?_
          rw [h.at_top hfirst.le hlt habove, within_limit,
            h.stopsDefinition_top hfirst.le hlt habove]
          exact hends
        · exact continuations_eq_nil _ (Or.inr
            (hsets.stopsDefinition (hends.resolve_left (by simp [hsets.filled])) cut _))

end Woven

lemma definitionRule_iff {ctx : Context} {lines : Lines} {n stop : Nat} {found : Found} :
    definitionRule ctx lines n stop = some found ↔
      ctx.isCode (lines.at n) = false ∧
        ∃ (rest : Text) (r : Reading) (key : Text) (past : Nat),
          (lines.at n).contentWithBreak = '[' :: rest ∧
          r = ⟨rest, continuations ctx lines (ctx.limit - (n + 1)) (n + 1), n + 1⟩ ∧
          Defines (r.size + 1) r key past ∧ found = ([.link key], past) := by
  rw [definitionRule]
  constructor
  · intro h
    split_ifs at h with hcode
    refine ⟨Bool.eq_false_iff.mpr hcode, ?_⟩
    split at h
    · rename_i rest hcontent
      extract_lets pending fuel at h
      simp only [Option.bind_eq_bind, Option.bind_eq_some_iff, Prod.exists] at h
      obtain ⟨label, r₁, hlabel, h⟩ := h
      split at h
      · rename_i behind hcolon
        simp only [Option.bind_eq_some_iff, Prod.exists] at h
        obtain ⟨destination, rest', hdestination, h⟩ := h
        rw [Option.ite_none_left_eq_some] at h
        obtain ⟨hsafe, h⟩ := h
        simp only [Option.bind_eq_some_iff] at h
        obtain ⟨past, hend, h⟩ := h
        obtain ⟨hkey, h⟩ := Option.ite_none_left_eq_some.mp h
        exact ⟨rest, _, _, past, hcontent, rfl,
          .intro hlabel hcolon rfl hdestination (by simpa using hsafe) hend
            (Bool.eq_false_iff.mpr hkey), (Option.some.inj h).symm⟩
      · simp at h
    · simp at h
  · rintro ⟨hcode, rest, r, key, past, hcontent, rfl, hdefines, rfl⟩
    obtain ⟨hlabel, hcolon, rfl, hdestination, hsafe, hend, hkey⟩ := hdefines
    rw [hcode, hcontent]
    simp only [Reading.size] at hlabel hdestination hend
    simp only [Bool.false_eq_true, if_false, hlabel, Option.bind_eq_bind, Option.bind_some, hcolon,
      hdestination, hsafe, Bool.not_true, hend, hkey]

section Woven

variable {s : Labelling} {cut first n stop : Nat} {ctx : Context} {lines lines' : Lines}

lemma tidy_contentWithBreak {l : Line} (h : '\n' ∉ l.content) : Tidy l.contentWithBreak := by
  rw [Tidy, Line.contentWithBreak]
  split_ifs
  · rwa [List.dropLast_concat]
  · rw [List.append_nil]
    exact fun hmem => h (List.mem_of_mem_dropLast hmem)

lemma tidy_continuations {lines : Lines} (h : ∀ n, '\n' ∉ (lines.at n).content) (ctx : Context)
    (fuel n : Nat) : ∀ t ∈ continuations ctx lines fuel n, Tidy t := by
  induction fuel generalizing n with
  | zero => simp [continuations]
  | succ fuel ih =>
      rw [continuations_succ]
      split_ifs
      · simp
      · simp
      · exact List.forall_mem_cons.mpr ⟨tidy_contentWithBreak (h n), ih (n + 1)⟩

/-- A link definition without labels inside is found again. -/
lemma Woven.definitionRule_some (h : Woven s cut first ctx.limit lines lines') (stop' : Nat)
    {found : Found} (hfirst : first ≤ n) (hfound : definitionRule ctx lines n stop = some found)
    (hcut : found.2 ≤ cut) (hquiet : s.Quiet (n + 1) found.2) :
    definitionRule (ctx.within s cut) lines' (s.pos n) stop' = some (found.1, s.top found.2) := by
  have hlt := (definitionRule_isLeaf hfound).lt
  obtain ⟨hcode, rest, r, key, past, hcontent, rfl, hdefines, rfl⟩ := definitionRule_iff.mp hfound
  dsimp only at hcut hquiet hlt ⊢
  have hline := h.at_pos hfirst (hlt.trans_le hcut)
  obtain ⟨ps, ts, ts', hpending, hpending', hwoven, hlong⟩ :=
    h.continuations_split (Nat.lt_succ_of_le hfirst) hcut hquiet
  have halike : Alike (s.top (n + 1)) (n + 1) past
      ⟨rest, continuations ctx lines (ctx.limit - (n + 1)) (n + 1), n + 1⟩
      ⟨rest, continuations (ctx.within s cut) lines' (s.top (min ctx.limit cut) - s.top (n + 1))
        (s.top (n + 1)), s.top (n + 1)⟩ :=
    ⟨rfl, Nat.add_comm _ _, ps, ts, ts', hpending, hpending', hwoven, hlong⟩
  have htidy := tidy_contentWithBreak (h.feedless n)
  rw [hcontent] at htidy
  obtain ⟨past', hdefines', hshift⟩ := hdefines.alike halike
    ⟨htidy.tail, tidy_continuations h.feedless ctx _ _⟩ (Nat.lt_succ_self _) (Nat.lt_succ_self _)
  have hpast : past' = s.top past := by
    rw [hquiet.top_eq hlt]
    rw [Labelling.top_succ] at hshift
    omega
  subst hpast
  refine definitionRule_iff.mpr ⟨?_, rest, _, key, _, ?_, rfl, ?_, rfl⟩
  · rwa [hline]
  · rw [hline, hcontent]
  · rw [within_limit, ← Labelling.top_succ]
    exact hdefines'

/-- Where the lines that may belong to a definition are the same, none is found that is not one
without the labels. -/
lemma Woven.definitionRule_none (h : Woven s cut first ctx.limit lines lines') (stop' : Nat)
    (hfirst : first ≤ n) (hn : n < cut) (hnone : definitionRule ctx lines n stop = none)
    (hsame : continuations (ctx.within s cut) lines' (s.top (min ctx.limit cut) - s.top (n + 1))
      (s.top (n + 1)) = continuations ctx lines (ctx.limit - (n + 1)) (n + 1)) :
    definitionRule (ctx.within s cut) lines' (s.pos n) stop' = none := by
  by_contra hsome
  obtain ⟨found, hfound⟩ := Option.ne_none_iff_exists'.mp hsome
  obtain ⟨hcode, rest, r, key, past, hcontent, rfl, hdefines, rfl⟩ := definitionRule_iff.mp hfound
  have hline := h.at_pos hfirst hn
  rw [hline] at hcode hcontent
  rw [within_limit, ← Labelling.top_succ, hsame] at hdefines
  have htidy := tidy_contentWithBreak (h.feedless n)
  rw [hcontent] at htidy
  have halike : Alike (n + 1) (s.top (n + 1)) past
      ⟨rest, continuations ctx lines (ctx.limit - (n + 1)) (n + 1), s.top (n + 1)⟩
      ⟨rest, continuations ctx lines (ctx.limit - (n + 1)) (n + 1), n + 1⟩ :=
    ⟨rfl, Nat.add_comm _ _, _, [], [], (List.append_nil _).symm, (List.append_nil _).symm, .nil _,
      Or.inl rfl⟩
  obtain ⟨past', hdefines', -⟩ := hdefines.alike halike
    ⟨htidy.tail, tidy_continuations h.feedless ctx _ _⟩ (Nat.lt_succ_self _) (Nat.lt_succ_self _)
  have hsome' : definitionRule ctx lines n stop = some ([.link key], past') :=
    definitionRule_iff.mpr ⟨hcode, rest, _, key, past', hcontent, rfl, hdefines', rfl⟩
  rw [hnone] at hsome'
  simp at hsome'

end Woven

end Galley.Markdown
