import Galley.Proofs.Directives
import Galley.Proofs.Markdown.Nesting
import Galley.Proofs.Markdown.WovenRules
import Mathlib.Tactic

/-!
What containers make of woven lines.

* `Woven.set`, `Woven.inner`: lines stay woven where a container takes its part of one;
* `Labelling.quotesFrom`: the lines of a quote stay woven; the quote is over at the first label
  that ends it, if it goes on there without the labels.
-/

namespace Galley.Markdown

/-! ### Parts of lines -/

section Set

variable {s : Labelling} {cut cut' first first' limit limit' n : Nat} {lines lines' inside : Lines}

lemma Woven.mono (h : Woven s cut first limit lines lines') (hle : first ≤ first') :
    Woven s cut first' limit lines lines' where
  line n hn := h.line n (hle.trans hn)
  sets n hn := h.sets n (hle.trans_lt hn)
  ruled n hn := h.ruled n (hle.trans hn)
  bare n hn := h.bare n (hle.trans_lt hn)
  plain n hn := h.plain n (hle.trans hn)
  feedless := h.feedless
  edge := h.edge

lemma Woven.within (h : Woven s cut first limit lines lines') (hle : limit' ≤ limit) :
    Woven s cut first limit' lines lines' :=
  { h with edge := fun hcut => h.edge (hcut.trans hle) }

/-- Lines stay woven up to a line in front of the cut where a quote is over at a label. -/
lemma Woven.restrict (h : Woven s cut first limit lines lines') (hcut : cut' ≤ cut)
    (hsame : ∀ n, n < cut' → inside[n]? = lines[n]?) (hfeedless : ∀ n, '\n' ∉ (inside.at n).content)
    (hedge : cut' ≤ limit' → s.above cut' = true ∧ (inside.at cut').isVoid = false ∧
      (inside.at cut').indent < 0 ∧ (lines'.at (s.top cut')).isVoid = false) :
    Woven s cut' first limit' inside lines' := by
  have hat : ∀ n, n < cut' → inside.at n = lines.at n := by
    intro n hn
    rw [Lines.at, Lines.at, List.getD_eq_getElem?_getD, List.getD_eq_getElem?_getD, hsame n hn]
  constructor
  case line =>
    intro n hn hlt
    rw [hsame n hlt]
    exact h.line n hn (hlt.trans_le hcut)
  case sets =>
    intro n hn hlt habove
    rw [hat n hlt]
    exact h.sets n hn (hlt.trans_le hcut) habove
  case ruled =>
    intro n hn hlt habove hbar
    rw [hat n (by omega)] at hbar
    rw [hat (n + 1) hlt]
    exact h.ruled n hn (hlt.trans_le hcut) habove hbar
  case bare =>
    intro n hn hlt habove hbare hindent hbar
    rw [hat n (by omega)] at hindent hbar
    rw [hat (n + 1) hlt]
    exact h.bare n hn (hlt.trans_le hcut) habove hbare hindent hbar
  case plain =>
    intro n hn hlt hplain
    rw [hat n hlt]
    exact h.plain n hn (hlt.trans_le hcut) hplain
  case feedless => exact hfeedless
  case edge => exact hedge

lemma Lines.at_set_suffix {lines : Lines} {n : Nat} {l : Line}
    (hl : l.content <:+ (lines.at n).content) (m : Nat) :
    (Lines.at (lines.set n l) m).content <:+ (lines.at m).content :=
  Inside.set (P := fun m content => content <:+ (lines.at m).content)
    (fun _ => List.suffix_rfl) hl m

/-- Lines stay woven where a part of the content of a line is taken. Lines with labels in front of
it only go on with paragraphs. -/
lemma Woven.set (h : Woven s cut first limit lines lines') (hfirst : first ≤ n) (hn : n < cut)
    (hquiet : first < n → s.above n = false)
    (hlazy : ∀ k, first < k → k < n → s.above k = true → (lines.at k).indent < 0) {l : Line}
    (hl : l.content <:+ (lines.at n).content) :
    Woven s cut first limit (lines.set n l) (lines'.set (s.pos n) l) := by
  have hsuffix := Lines.at_set_suffix hl
  have hother : ∀ k, first < k → s.above k = true → n ≠ k := by
    rintro k hk habove rfl
    rw [hquiet hk] at habove
    exact Bool.noConfusion habove
  constructor
  case line =>
    intro k hk hlt
    rcases eq_or_ne n k with rfl | hne
    · have hline := h.line n hk hlt
      rw [List.getElem?_set_self', List.getElem?_set_self', hline]
    · rw [List.getElem?_set_ne (fun heq => hne (s.pos_injective heq)), List.getElem?_set_ne hne]
      exact h.line k hk hlt
  case sets =>
    intro k hk hlt habove
    rw [Lines.at_set_ne _ (hother k hk habove), Lines.at_set_ne _ (s.pos_ne_top habove)]
    exact h.sets k hk hlt habove
  case ruled =>
    intro k hk hlt habove hbar
    rw [Lines.at_set_ne _ (hother (k + 1) (by omega) habove)]
    exact h.ruled k hk hlt habove ((hsuffix k).subset hbar)
  case bare =>
    intro k hk hlt habove hbare hindent hbar
    rw [Lines.at_set_ne _ (hother k hk habove)] at hindent hbar
    have hbehind : n ≠ k + 1 := by
      rintro rfl
      have := hlazy k hk (Nat.lt_succ_self k) habove
      omega
    rw [Lines.at_set_ne _ hbehind]
    exact h.bare k hk hlt habove hbare hindent hbar
  case plain => exact fun k hk hlt hplain hmem => h.plain k hk hlt hplain ((hsuffix k).subset hmem)
  case feedless => exact fun k hmem => h.feedless k ((hsuffix k).subset hmem)
  case edge =>
    intro hcut
    obtain ⟨habove, hedge⟩ := h.edge hcut
    rw [Lines.at_set_ne _ hn.ne, Lines.at_set_ne _ (s.pos_ne_top habove)]
    exact ⟨habove, hedge⟩

/-- Lines stay woven inside a container that begins at a line. -/
lemma Woven.inner (h : Woven s cut first limit lines lines') (hfirst : first ≤ n) (hn : n < cut)
    {l : Line} (hl : l.content <:+ (lines.at n).content) :
    Woven s cut n limit (lines.set n l) (lines'.set (s.pos n) l) :=
  (h.mono hfirst).set le_rfl hn (fun hlt => absurd hlt (Nat.lt_irrefl n))
    (fun _ hk hlt => absurd hk (Nat.lt_asymm hlt)) hl

/-- A line that only goes on with a paragraph. -/
def Line.lazy (l : Line) : Line := { l with indent := -1 }

lemma lazy_indent (l : Line) : l.lazy.indent < 0 := by
  rw [Line.lazy]
  exact (by decide : (-1 : Int) < 0)

lemma IsLabel.lazy {id : Text} {l : Line} (h : IsLabel id l) : IsLabel id l.lazy :=
  ⟨h.name, h.text, h.ended⟩

/-- Lines stay woven where a line with a label, and the label with it, only goes on with a
paragraph. -/
lemma Woven.lazy (h : Woven s cut first limit lines lines') (hfirst : first < n) (hn : n < cut)
    (habove : s.above n = true) (hflush : s.flush n = false) :
    Woven s cut first limit (lines.set n (lines.at n).lazy)
      ((lines'.set (s.top n) (lines'.at (s.top n)).lazy).set (s.pos n)
        (lines.at n).lazy) := by
  have hsets := h.sets n hfirst hn habove
  have hlt : n < lines.length := Lines.lt_length hsets.content_ne_nil
  have hlt' : s.top n < lines'.length := by
    refine Lines.lt_length ?_
    obtain ⟨rest, hrest⟩ := hsets.isLabel.content_cons
    rw [hrest]
    exact List.cons_ne_nil _ _
  have hplace : ∀ k, s.pos k ≠ s.top n := fun k => s.pos_ne_top habove
  have hcontent : ∀ k, (Lines.at (lines.set n (lines.at n).lazy) k).content =
      (lines.at k).content := by
    intro k
    rcases eq_or_ne n k with rfl | hne
    · rw [Lines.at_set_self _ hlt]
      rfl
    · rw [Lines.at_set_ne _ hne]
  constructor
  case line =>
    intro k hk hkcut
    rcases eq_or_ne n k with rfl | hne
    · have hline := h.line n hk hkcut
      rw [List.getElem?_set_self', List.getElem?_set_self', List.getElem?_set_ne (hplace n).symm,
        hline]
    · rw [List.getElem?_set_ne (fun heq => hne (s.pos_injective heq)),
        List.getElem?_set_ne (hplace k).symm, List.getElem?_set_ne hne]
      exact h.line k hk hkcut
  case sets =>
    intro k hk hkcut hkabove
    rw [Lines.at_set_ne _ (s.pos_ne_top hkabove)]
    rcases eq_or_ne n k with rfl | hne
    · rw [Lines.at_set_self _ hlt, Lines.at_set_self _ hlt']
      refine ⟨hsets.isLabel.lazy, ?_, ?_, hsets.filled, hsets.unquoted⟩
      · rw [hflush]
        rfl
      · rw [hflush]
        exact fun hfalse => Bool.noConfusion hfalse
    · have htop : s.top n ≠ s.top k := by
        rcases hne.lt_or_gt with hlt | hlt
        · exact (Labelling.top_lt_top hlt).ne
        · exact (Labelling.top_lt_top hlt).ne'
      rw [Lines.at_set_ne _ hne, Lines.at_set_ne _ htop]
      exact h.sets k hk hkcut hkabove
  case ruled =>
    intro k hk hkcut hkabove
    rw [hcontent, hcontent]
    exact h.ruled k hk hkcut hkabove
  case bare =>
    intro k hk hkcut hkabove hbare hindent
    rcases eq_or_ne n k with rfl | hne
    · rw [Lines.at_set_self _ hlt] at hindent
      exact absurd hindent (Int.not_le.mpr (lazy_indent _))
    · rw [Lines.at_set_ne _ hne] at hindent
      rw [hcontent, hcontent]
      exact h.bare k hk hkcut hkabove hbare hindent
  case plain =>
    intro k hk hkcut hplain
    rw [hcontent]
    exact h.plain k hk hkcut hplain
  case feedless =>
    intro k
    rw [hcontent]
    exact h.feedless k
  case edge =>
    intro hcut
    obtain ⟨habove', hfilled, hindent, hlabel⟩ := h.edge hcut
    rw [Lines.at_set_ne _ hn.ne, Lines.at_set_ne _ (s.pos_ne_top habove'),
      Lines.at_set_ne _ (Labelling.top_lt_top hn).ne]
    exact ⟨habove', hfilled, hindent, hlabel⟩

end Set

/-! ### Quotes -/

/-- A label that is code is as deep as its line. -/
lemma Labelling.Sets.deep {s : Labelling} {n : Nat} {l label : Line} {ctx : Context}
    (h : s.Sets n l label) (hcode : ctx.isCode label = true) :
    s.flush n = false ∧ ctx.isCode l = true := by
  have hindent := h.indent
  simp only [Context.isCode, decide_eq_true_eq] at hcode ⊢
  cases hflush : s.flush n with
  | true =>
      rw [hflush, if_pos rfl] at hindent
      omega
  | false =>
      rw [hflush, if_neg Bool.false_ne_true] at hindent
      exact ⟨rfl, hindent ▸ hcode⟩

lemma endsQuote_of_isCode {ctx : Context} {l : Line} (h : ctx.isCode l = true) :
    endsQuote ctx l = false := by
  simp [endsQuote, opensFence, opensQuote, opensBreak, opensList, listOpening?, opensHtml,
    opensHeading, h]

/-- What a quote does with a line: it is over there, on account of another block or not, or it takes
the line, which is empty inside the quote or not. -/
inductive QuoteStep where
  | stops (ended : Bool)
  | takes (l : Line) (void : Bool)

/-- What a quote does with its next line. -/
def quoteStep (ctx : Context) (lastVoid : Bool) (l : Line) : QuoteStep :=
  match l.content with
  | [] => .stops false
  | c :: rest =>
      if c == '>' && !(l.indent < ctx.indent) then
        .takes (quotedLine l rest) (quotedLine l rest).isVoid
      else if lastVoid then .stops false
      else if endsQuote ctx l then .stops true
      else .takes l.lazy false

lemma quoteLines_succ (ctx : Context) (stop fuel : Nat) (lastVoid : Bool) (lines : Lines)
    (m : Nat) :
    quoteLines ctx stop (fuel + 1) lastVoid lines m =
      match quoteStep ctx lastVoid (lines.at m) with
      | .stops ended => (lines, m, ended)
      | .takes l void => quoteLines ctx stop fuel void (lines.set m l) (m + 1) := by
  rw [quoteLines, quoteStep]
  cases (lines.at m).content with
  | nil => rfl
  | cons c rest =>
      dsimp only
      split_ifs <;> rfl

@[simp] lemma quoteStep_within (s : Labelling) (cut : Nat) (ctx : Context) (lastVoid : Bool)
    (l : Line) : quoteStep (ctx.within s cut) lastVoid l = quoteStep ctx lastVoid l := rfl

lemma quoteStep_suffix {ctx : Context} {lastVoid void : Bool} {l l' : Line}
    (h : quoteStep ctx lastVoid l = .takes l' void) : l'.content <:+ l.content := by
  rw [quoteStep] at h
  split at h
  · simp at h
  · rename_i c rest hcontent
    split_ifs at h
    · obtain ⟨rfl, -⟩ := QuoteStep.takes.inj h
      rw [quotedLine_content, hcontent]
      exact (List.dropWhile_suffix _).trans (List.suffix_cons _ _)
    · obtain ⟨rfl, -⟩ := QuoteStep.takes.inj h
      exact List.suffix_rfl

/-- What a quote does with a line whose content is no mark. -/
lemma quoteStep_unquoted {ctx : Context} {lastVoid : Bool} {l : Line} (hfilled : l.isVoid = false)
    (hunquoted : l.content.head? ≠ some '>' ∨ l.indent < ctx.indent) :
    quoteStep ctx lastVoid l =
      if lastVoid then .stops false
      else if endsQuote ctx l then .stops true
      else .takes l.lazy false := by
  rw [quoteStep]
  split
  · rename_i hnil
    rw [Line.isVoid, hnil] at hfilled
    exact Bool.noConfusion hfilled
  · rename_i c rest hcontent
    rw [hcontent] at hunquoted
    have hmark : ¬ (c == '>' && !(decide (l.indent < ctx.indent))) = true := by
      rcases hunquoted with hne | hlt
      · simp at hne
        simp [hne]
      · simp [hlt]
    rw [if_neg hmark]

/-- The lines in front of those that a quote looks at stay. -/
lemma quoteLines_getElem {ctx : Context} {stop fuel k m : Nat} {lastVoid : Bool} {lines : Lines}
    (h : k < m) : (quoteLines ctx stop fuel lastVoid lines m).1[k]? = lines[k]? := by
  induction fuel generalizing lastVoid lines m with
  | zero => rfl
  | succ fuel ih =>
      rw [quoteLines_succ]
      split
      · rfl
      · exact (ih (by omega)).trans (List.getElem?_set_ne (by omega))

/-- A line that only goes on with a paragraph does so inside a quote. -/
lemma quoteLines_lazy (ctx : Context) (stop fuel m : Nat) (lastVoid : Bool) {k : Nat}
    {lines : Lines} (hfilled : (lines.at k).isVoid = false) (h : (lines.at k).indent < 0) :
    ((quoteLines ctx stop fuel lastVoid lines m).1.at k).isVoid = false ∧
      ((quoteLines ctx stop fuel lastVoid lines m).1.at k).indent < 0 := by
  induction fuel generalizing lastVoid lines m with
  | zero => exact ⟨hfilled, h⟩
  | succ fuel ih =>
      rw [quoteLines_succ]
      split
      · exact ⟨hfilled, h⟩
      · rename_i l void hstep
        rcases eq_or_ne m k with rfl | hne
        · rw [quoteStep_unquoted hfilled (Or.inr (by omega))] at hstep
          split_ifs at hstep
          obtain ⟨rfl, -⟩ := QuoteStep.takes.inj hstep
          have hlt : m < lines.length := Lines.lt_length fun hnil => by
            rw [Line.isVoid, hnil] at hfilled
            exact Bool.noConfusion hfilled
          have hat := Lines.at_set_self (lines.at m).lazy hlt
          exact ih _ _ (by rw [hat]; exact hfilled) (by rw [hat]; exact lazy_indent _)
        · have hat : Lines.at (lines.set m l) k = lines.at k := Lines.at_set_ne l hne
          exact ih _ _ (by rwa [hat]) (by rwa [hat])

lemma noteLabel_suffix {content label rest : Text} (h : noteLabel? content = some (label, rest)) :
    rest <:+ content := by
  obtain ⟨rfl, -⟩ := noteLabel_split h
  exact List.suffix_append _ _

/-- What a container leaves of a content without line feeds has none. -/
lemma keptInside_feedless : KeptInside fun content => '\n' ∉ content where
  quote h hmem := h (List.mem_cons_of_mem _ ((List.dropWhile_suffix _).subset hmem))
  item _ h hmem := h (List.mem_of_mem_drop ((List.dropWhile_suffix _).subset hmem))
  note hlabel h hmem :=
    h ((noteLabel_suffix hlabel).subset ((List.dropWhile_suffix _).subset hmem))

/-- The lines of a quote that goes on at the line `m`, without labels and with them: they are woven
up to a cut, which is where a label ends the quote, if its line does not end it. -/
structure Labelling.Quoted (s : Labelling) (cut' cut first m limit : Nat)
    (quoted quoted' : Lines × Nat × Bool) : Prop where
  le : m ≤ cut'
  le_cut : cut' ≤ cut
  reach : cut' = cut ∨ cut' ≤ quoteLimit limit quoted
  past : quoted'.2.1 = s.top (min quoted.2.1 cut')
  woven : Woven s cut' first (quoteLimit limit quoted) quoted.1 quoted'.1
  limit : quoteLimit (s.top (min limit cut)) quoted' = s.top (min (quoteLimit limit quoted) cut')

section Quote

variable {s : Labelling} {cut first m stop fuel : Nat} {ctx : Context} {lines lines' : Lines}
variable {lastVoid : Bool}

/-- The quote is over at a line or at its label. -/
lemma Woven.quoted_here (h : Woven s cut first ctx.limit lines lines') (hm : m ≤ cut)
    (hlimit : m ≤ ctx.limit) (ended : Bool) :
    s.Quoted cut cut first m ctx.limit (lines, m, ended) (lines', s.top m, ended) := by
  refine ⟨hm, le_rfl, Or.inl rfl, by rw [min_eq_left hm], ?_, ?_⟩
  · cases ended with
    | true => exact h.within hlimit
    | false => exact h
  · cases ended with
    | true => simp [quoteLimit, hm]
    | false => rfl

/-- The quote goes on at a line where nothing is left to read among the labels. -/
lemma Woven.quoted_restrict {quoted : Lines × Nat × Bool} {ended : Bool}
    (h : Woven s cut first ctx.limit lines lines') (hm : m ≤ cut) (hlimit : m ≤ ctx.limit)
    (hcut : ended = true ∨ m = cut)
    (hover : m ≤ quoted.2.1) (hsame : ∀ k, k < m → quoted.1[k]? = lines[k]?)
    (hfeedless : ∀ n, '\n' ∉ (quoted.1.at n).content)
    (hedge : s.above m = true ∧ (quoted.1.at m).isVoid = false ∧ (quoted.1.at m).indent < 0 ∧
      (lines'.at (s.top m)).isVoid = false) :
    s.Quoted m cut first m ctx.limit quoted (lines', s.top m, ended) := by
  have hbound : m ≤ quoteLimit ctx.limit quoted := by
    rw [quoteLimit]
    split_ifs <;> assumption
  refine ⟨le_rfl, hm, Or.inr hbound, by rw [min_eq_right hover], ?_, ?_⟩
  · exact h.restrict hm hsame hfeedless fun _ => hedge
  · rw [min_eq_right hbound]
    rcases hcut with rfl | rfl
    · rfl
    · cases ended with
      | true => rfl
      | false => simp [quoteLimit, hlimit]

lemma Labelling.Quoted.back {cut' limit : Nat} {quoted quoted' : Lines × Nat × Bool}
    (h : s.Quoted cut' cut first (m + 1) limit quoted quoted') :
    s.Quoted cut' cut first m limit quoted quoted' :=
  { h with le := (Nat.le_succ m).trans h.le }

/-- From a line on, the lines of a quote stay woven, if those that were labelled only go on with a
paragraph. -/
def Labelling.QuotesFrom (s : Labelling) (cut first : Nat) (ctx : Context) (stop fuel m : Nat) :
    Prop :=
  ∀ {lines lines' : Lines} (lastVoid : Bool), Woven s cut first ctx.limit lines lines' →
    (∀ k, first < k → k < m → s.above k = true → (lines.at k).indent < 0) →
    ∃ cut', s.Quoted cut' cut first m ctx.limit (quoteLines ctx stop fuel lastVoid lines m)
      (quoteLines (ctx.within s cut) (s.top (min stop cut)) (s.top (min stop cut) - s.top m)
        lastVoid lines' (s.top m))

/-- Without line feeds in the lines, there are none in those of a quote. -/
lemma quoteLines_feedless (ctx : Context) (stop fuel : Nat) (lastVoid : Bool) {lines : Lines}
    (m : Nat) (h : ∀ n, '\n' ∉ (lines.at n).content) (n : Nat) :
    '\n' ∉ ((Markdown.quoteLines ctx stop fuel lastVoid lines m).1.at n).content := by
  have hinside : Inside (fun _ content => '\n' ∉ content) lines := h
  exact quoteLines_inside (fun _ => keptInside_feedless) ctx stop fuel lastVoid m hinside n

section Step

variable (h : Woven s cut first ctx.limit lines lines') (hfirst : first < m)
variable (hlazy : ∀ k, first < k → k < m → s.above k = true → (lines.at k).indent < 0)
include h hfirst hlazy

/-- The lines of a quote stay woven at a line without a label. -/
lemma Woven.quoteLines_plain (hm : m < cut) (hstop : m < stop) (hbounded : stop ≤ ctx.limit)
    (habove : s.above m = false) (hrest : s.QuotesFrom cut first ctx stop fuel (m + 1)) :
    ∃ cut', s.Quoted cut' cut first m ctx.limit
      (quoteLines ctx stop (fuel + 1) lastVoid lines m)
      (quoteLines (ctx.within s cut) (s.top (min stop cut)) (s.top (min stop cut) - s.top m)
        lastVoid lines' (s.top m)) := by
  have hplace := Labelling.top_add_one habove
  rw [Labelling.rest_succ hstop hm habove, quoteLines_succ, quoteLines_succ,
    h.at_top hfirst.le hm habove, quoteStep_within, hplace]
  cases hstep : quoteStep ctx lastVoid (lines.at m) with
  | stops ended => exact ⟨cut, h.quoted_here hm.le (hstop.le.trans hbounded) ended⟩
  | takes l void =>
      have hwoven := h.set hfirst.le hm (fun _ => habove) hlazy (quoteStep_suffix hstep)
      rw [Labelling.pos_of_not_above habove] at hwoven
      obtain ⟨cut', hquoted⟩ := hrest void hwoven fun k hk hkm hkabove => by
        have hne : m ≠ k := by
          rintro rfl
          rw [habove] at hkabove
          exact Bool.noConfusion hkabove
        rw [Lines.at_set_ne _ hne]
        exact hlazy k hk (by omega) hkabove
      exact ⟨cut', hquoted.back⟩

variable (hm : m < cut) (habove : s.above m = true)
include hm habove

omit hlazy in
/-- A quote that would go on with a paragraph is over at a label that is no code. -/
lemma Woven.quoteLines_ended (hlimit : m ≤ ctx.limit) (hends : endsQuote ctx (lines.at m) = false) :
    ∃ cut', s.Quoted cut' cut first m ctx.limit
      (quoteLines ctx stop (fuel + 1) false lines m) (lines', s.top m, true) := by
  have hsets := h.sets m hfirst hm habove
  have hat := Lines.at_set_self (lines.at m).lazy (Lines.lt_length hsets.content_ne_nil)
  rw [quoteLines_succ, quoteStep_unquoted hsets.filled (Or.inl hsets.unquoted), hends]
  simp only [Bool.false_eq_true, if_false]
  obtain ⟨hfilled, hindent⟩ := quoteLines_lazy ctx stop fuel (m + 1) false
    (by rw [hat]; exact hsets.filled) (by rw [hat]; exact lazy_indent (lines.at m))
  refine ⟨m, h.quoted_restrict hm.le hlimit (Or.inl rfl) ?_ ?_ ?_
    ⟨habove, hfilled, hindent, hsets.isLabel.filled⟩⟩
  · exact (Nat.le_succ m).trans (le_quoteLines ctx stop fuel false _ (m + 1))
  · exact fun k hk => (quoteLines_getElem (by omega)).trans (List.getElem?_set_ne (by omega))
  · refine quoteLines_feedless ctx stop fuel false (m + 1) fun n hmem => ?_
    have hsuffix :=
      Lines.at_set_suffix (show (lines.at m).lazy.content <:+ _ from List.suffix_rfl) n
    exact h.feedless n (hsuffix.subset hmem)

/-- A label that is code, as its line is, goes on with a paragraph as its line does. -/
lemma Woven.quoteLines_deep (hstop : m < stop)
    (hcode : ctx.isCode (lines'.at (s.top m)) = true)
    (hrest : s.QuotesFrom cut first ctx stop fuel (m + 1)) :
    ∃ cut', s.Quoted cut' cut first m ctx.limit
      (quoteLines ctx stop (fuel + 1) false lines m)
      (quoteLines (ctx.within s cut) (s.top (min stop cut)) (s.top (min stop cut) - s.top m)
        false lines' (s.top m)) := by
  have hsets := h.sets m hfirst hm habove
  obtain ⟨label, hlabel⟩ := hsets.isLabel.content_cons
  have hunquoted : (lines'.at (s.top m)).content.head? ≠ some '>' := by simp [hlabel]
  obtain ⟨hflush, hcode'⟩ := hsets.deep hcode
  have hat : Lines.at (lines'.set (s.top m) (lines'.at (s.top m)).lazy) (s.pos m) = lines.at m := by
    rw [Lines.at_set_ne _ (s.pos_ne_top habove).symm, h.at_pos hfirst.le hm]
  obtain ⟨cut', hquoted⟩ := hrest false (h.lazy hfirst hm habove hflush) fun k hk hkm hkabove => by
    rcases eq_or_ne m k with rfl | hne
    · rw [Lines.at_set_self _ (Lines.lt_length hsets.content_ne_nil)]
      exact lazy_indent _
    · rw [Lines.at_set_ne _ hne]
      exact hlazy k hk (by omega) hkabove
  refine ⟨cut', ?_⟩
  rw [Labelling.rest_above hstop hm habove, Labelling.rest_pos hstop hm, quoteLines_succ,
    quoteLines_succ, quoteStep_unquoted hsets.filled (Or.inl hsets.unquoted),
    quoteStep_unquoted hsets.isLabel.filled (Or.inl hunquoted), endsQuote_within,
    endsQuote_of_isCode hcode, endsQuote_of_isCode hcode', ← Labelling.pos_of_above habove]
  simp only [Bool.false_eq_true, if_false]
  rw [quoteLines_succ, hat, quoteStep_unquoted hsets.filled (Or.inl hsets.unquoted),
    endsQuote_within, endsQuote_of_isCode hcode', ← Labelling.top_succ]
  exact hquoted.back

/-- The lines of a quote stay woven at a line with a label. -/
lemma Woven.quoteLines_labelled (hstop : m < stop) (hbounded : stop ≤ ctx.limit)
    (hrest : s.QuotesFrom cut first ctx stop fuel (m + 1)) :
    ∃ cut', s.Quoted cut' cut first m ctx.limit
      (quoteLines ctx stop (fuel + 1) lastVoid lines m)
      (quoteLines (ctx.within s cut) (s.top (min stop cut)) (s.top (min stop cut) - s.top m)
        lastVoid lines' (s.top m)) := by
  have hsets := h.sets m hfirst hm habove
  have hlimit : m ≤ ctx.limit := hstop.le.trans hbounded
  obtain ⟨label, hlabel⟩ := hsets.isLabel.content_cons
  have hunquoted : (lines'.at (s.top m)).content.head? ≠ some '>' := by simp [hlabel]
  have hlabelled := quoteLines_succ (ctx.within s cut) (s.top (min stop cut))
    (s.top (min stop cut) - s.pos m) lastVoid lines' (s.top m)
  rw [← Labelling.rest_above hstop hm habove, quoteStep_unquoted hsets.isLabel.filled
    (Or.inl hunquoted), endsQuote_within] at hlabelled
  cases lastVoid with
  | true =>
      rw [hlabelled, quoteLines_succ, quoteStep_unquoted hsets.filled (Or.inl hsets.unquoted)]
      exact ⟨cut, h.quoted_here hm.le hlimit false⟩
  | false =>
      cases hcode : ctx.isCode (lines'.at (s.top m)) with
      | true => exact h.quoteLines_deep hfirst hlazy hm habove hstop hcode hrest
      | false =>
          rw [hlabelled, hsets.isLabel.endsQuote hcode]
          simp only [Bool.false_eq_true, if_false, if_true]
          cases hends : endsQuote ctx (lines.at m) with
          | true =>
              rw [quoteLines_succ, quoteStep_unquoted hsets.filled (Or.inl hsets.unquoted), hends]
              exact ⟨cut, h.quoted_here hm.le hlimit true⟩
          | false => exact h.quoteLines_ended hfirst hm habove hlimit hends

end Step

/-- The lines of a quote that goes on behind the cut stay woven up to the cut. -/
lemma Woven.quoteLines_over (h : Woven s m first ctx.limit lines lines') (hlimit : m ≤ ctx.limit) :
    ∃ cut', s.Quoted cut' m first m ctx.limit (quoteLines ctx stop fuel lastVoid lines m)
      (quoteLines (ctx.within s m) (s.top (min stop m)) (s.top (min stop m) - s.top m)
        lastVoid lines' (s.top m)) := by
  obtain ⟨habove, hfilled, hindent, hlabel⟩ := h.edge hlimit
  obtain ⟨hfilled', hindent'⟩ := quoteLines_lazy ctx stop fuel m lastVoid hfilled hindent
  rw [Labelling.rest_zero (Or.inr le_rfl)]
  exact ⟨m, h.quoted_restrict le_rfl hlimit (Or.inr rfl)
    (le_quoteLines ctx stop fuel lastVoid lines m)
    (fun k hk => quoteLines_getElem hk) (quoteLines_feedless ctx stop fuel lastVoid m h.feedless)
    ⟨habove, hfilled', hindent', hlabel⟩⟩

/-- The lines of a quote stay woven. -/
lemma Labelling.quotesFrom (s : Labelling) (cut : Nat) (ctx : Context) (hbounded : stop ≤ ctx.limit)
    (hfirst : first < m) (hm : m ≤ cut) (hlimit : m ≤ ctx.limit) (hfuel : stop - m = fuel) :
    s.QuotesFrom cut first ctx stop fuel m := by
  induction fuel generalizing m with
  | zero =>
      intro lines lines' lastVoid h _
      rw [Labelling.rest_zero (Or.inl (by omega))]
      exact ⟨cut, h.quoted_here hm hlimit false⟩
  | succ fuel ih =>
      intro lines lines' lastVoid h hlazy
      have hstop : m < stop := by omega
      rcases hm.lt_or_eq with hlt | rfl
      · have hrest : s.QuotesFrom cut first ctx stop fuel (m + 1) :=
          ih (by omega) hlt (hstop.trans_le hbounded) (by omega)
        cases habove : s.above m with
        | false => exact h.quoteLines_plain hfirst hlazy hlt hstop hbounded habove hrest
        | true => exact h.quoteLines_labelled hfirst hlazy hlt habove hstop hbounded hrest
      · exact h.quoteLines_over hlimit

end Quote

end Galley.Markdown
