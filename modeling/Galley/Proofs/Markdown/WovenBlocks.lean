import Galley.Proofs.Markdown.FirstLines
import Galley.Proofs.Markdown.WovenEvents
import Mathlib.Tactic

/-!
Blocks and runs among labels.

* `Reader.Weaving`: a reader finds among labels what it finds without them, and the labels;
* `Woven.quoteRule`, `Woven.noteRule`, `Woven.listItems`: so do the rules of containers; a label
  above an item splits the list;
* `Woven.weaves`: so does whatever block begins at a line.
-/

namespace Galley.Markdown

/-- Among labels the reader finds what it finds without them, and the labels. The range begins
behind the label of its first line; it ends with the range without labels, if it does not go on
behind the cut. -/
def Reader.Weaving (read : Reader) : Prop :=
  ∀ {s : Labelling} {cut : Nat} {ctx : Context} {lines lines' : Lines} {n stop : Nat},
    Woven s cut n ctx.limit lines lines' → n < cut → Opens ctx lines n stop →
    (ctx.depth = 0 → ctx.indent = 0) → (cut ≤ ctx.limit ∨ (read ctx lines n stop).2 ≤ cut) →
    s.Tame (n + 1) (read ctx lines n stop).2 (read ctx lines n stop).1 →
    (read ctx lines n stop).2 ≤ cut ∧
      ∃ es', Follows s s.IsLabelBlock (read ctx lines n stop).1 es' ∧
        read (ctx.within s cut) lines' (s.pos n) (s.top (min stop cut)) =
          (es', s.top (read ctx lines n stop).2)

/-- What is known of the reader of a container: it finds among labels what it finds without them,
and what it finds begins in its range, is as deep as the container, and is in order. -/
structure Reader.Sound (read : Reader) : Prop where
  weaving : read.Weaving
  bounded : read.Bounded
  nests : read.Nesting
  gets : read.Getting fun low high _ => low ≤ high
  ordered : read.Getting InOrder

section Rules

variable {inner items : Reader} {s : Labelling} {cut first n stop : Nat} {ctx : Context}
variable {lines lines' : Lines} {found : Found}

section Containers

variable (h : Woven s cut first ctx.limit lines lines') (hfirst : first ≤ n) (hn : n < cut)
variable (hready : Ready ctx lines n stop)
include h hfirst hn hready

lemma Woven.noteRule (hinner : inner.Weaving)
    (hfound : noteRule inner ctx lines n stop = some found) (hcut : cut ≤ ctx.limit ∨ found.2 ≤ cut)
    (htame : s.Tame (n + 1) found.2 found.1) :
    found.2 ≤ cut ∧ ∃ es', Follows s s.IsLabelBlock found.1 es' ∧
      noteRule inner (ctx.within s cut) lines' (s.pos n) (s.top (min stop cut)) =
        some (es', s.top found.2) := by
  rw [noteRule_eq] at hfound ⊢
  rw [h.at_pos hfirst hn, isCode_within]
  split_ifs at hfound ⊢
  obtain ⟨label, hlabel, rfl⟩ := Option.map_eq_some_iff.mp hfound
  have hopens := note_opens hready label.2
  have hsuffix : (noteLine (lines.at n) label.2 (ctx.indent + 4)).content <:+
      (lines.at n).content := by
    rw [noteLine_content]
    exact (List.dropWhile_suffix _).trans (noteLabel_suffix hlabel)
  have hinside : s.Tame (n + 1) (inner ctx.note (lines.set n (noteLine (lines.at n) label.2
      (ctx.indent + 4))) n stop).2 (inner ctx.note (lines.set n (noteLine (lines.at n) label.2
      (ctx.indent + 4))) n stop).1 :=
    htame.part le_rfl le_rfl (fun b hb => by simp [hb]) fun b hb _ _ => by simpa using hb
  have hwoven : Woven s cut n ctx.note.limit _ _ := h.inner hfirst hn hsuffix
  obtain ⟨hpast, es', hfollows, hrun⟩ := hinner hwoven hn hopens
    (fun hdepth => absurd hdepth (Nat.succ_ne_zero _)) hcut hinside
  refine ⟨hpast, _, hfollows.note, ?_⟩
  rw [hlabel]
  have hcontext : (ctx.within s cut).note = ctx.note.within s cut := rfl
  simp only [Option.map_some, hcontext, within_indent, hrun]

/-- The lines of a quote are woven up to its cut. -/
lemma Woven.quotedLines : ∃ cut', s.Quoted cut' cut n (n + 1) ctx.limit
    (quotedLines ctx lines n stop)
    (quotedLines (ctx.within s cut) lines' (s.pos n) (s.top (min stop cut))) := by
  have hsuffix : (quotedLine (lines.at n) (lines.at n).content.tail).content <:+
      (lines.at n).content := by
    rw [quotedLine_content]
    exact (List.dropWhile_suffix _).trans (List.tail_suffix _)
  have hlimit : n + 1 ≤ ctx.limit := hready.before.trans_le hready.bounded
  rw [Markdown.quotedLines, Markdown.quotedLines, h.at_pos hfirst hn, ← Labelling.top_succ]
  exact s.quotesFrom cut ctx hready.bounded (Nat.lt_succ_self n) hn hlimit rfl _
    (h.inner hfirst hn hsuffix) fun k hk hlt => absurd hk (Nat.not_lt.mpr (Nat.le_of_lt_succ hlt))

lemma Woven.quoteRule (hinner : inner.Weaving) (hbounded : inner.Bounded)
    (hfound : quoteRule inner ctx lines n stop = some found)
    (hcut : cut ≤ ctx.limit ∨ found.2 ≤ cut) (htame : s.Tame (n + 1) found.2 found.1) :
    found.2 ≤ cut ∧ ∃ es', Follows s s.IsLabelBlock found.1 es' ∧
      quoteRule inner (ctx.within s cut) lines' (s.pos n) (s.top (min stop cut)) =
        some (es', s.top found.2) := by
  have hopens := quotedLines_opens hready
  obtain ⟨cut', hquoted⟩ := h.quotedLines hfirst hn hready
  rw [quoteRule_eq] at hfound ⊢
  rw [h.at_pos hfirst hn, opensQuote_within]
  generalize Markdown.quotedLines ctx lines n stop = quoted at hopens hquoted hfound
  generalize Markdown.quotedLines (ctx.within s cut) lines' (s.pos n) (s.top (min stop cut)) =
    quoted' at hquoted ⊢
  split_ifs at hfound ⊢
  obtain rfl := Option.some.inj hfound
  dsimp only at hcut htame ⊢
  have htame' := htame.inside (Nat.lt_succ_self n)
  have hcontext : (ctx.within s cut).quote quoted' = (ctx.quote quoted).within s cut' := by
    simp only [Context.quote, Context.within, hquoted.limit]
  -- the run does not go on behind the cut of the lines
  have hcut' : cut' ≤ (ctx.quote quoted).limit ∨
      (inner (ctx.quote quoted) quoted.1 n quoted.2.1).2 ≤ cut' := by
    rcases hquoted.reach with rfl | hreach
    · by_cases hlimit : cut' ≤ (ctx.quote quoted).limit
      · exact Or.inl hlimit
      · refine Or.inr ?_
        rcases hcut with hcut | hcut
        · by_contra hover
          obtain ⟨b, hb, hb', -⟩ := htame'.begins cut' hquoted.le (Nat.lt_of_not_le hover)
            (h.edge hcut).1
          have := hbounded _ _ _ _ b hb
          have := hopens.bounded
          omega
        · exact hcut
    · exact Or.inl hreach
  obtain ⟨hpast, es', hfollows, hrun⟩ := hinner hquoted.woven hquoted.le hopens
    (fun hdepth => absurd hdepth (Nat.succ_ne_zero _)) hcut' htame'
  refine ⟨hpast.trans hquoted.le_cut,
    .block ⟨.quote, s.pos n, s.top (inner (ctx.quote quoted) quoted.1 n quoted.2.1).2, ctx.depth⟩ ::
      es', Follows.container rfl rfl hfollows, ?_⟩
  rw [hcontext, hquoted.past, hrun]
  rfl

end Containers

/-- A line has content where its label does. -/
lemma Woven.isVoid_top (h : Woven s cut first ctx.limit lines lines') (hfirst : first < n)
    (hn : n ≤ cut) (hlimit : n ≤ ctx.limit) :
    (lines'.at (s.top n)).isVoid = (lines.at n).isVoid := by
  rcases hn.lt_or_eq with hlt | rfl
  · cases habove : s.above n with
    | true =>
        have hsets := h.sets n hfirst hlt habove
        rw [hsets.filled, hsets.isLabel.filled]
    | false => rw [h.at_top hfirst.le hlt habove]
  · obtain ⟨-, hfilled, -, hlabel⟩ := h.edge hlimit
    rw [hfilled, hlabel]

section Items

variable (h : Woven s cut first ctx.limit lines lines') (hfirst : first ≤ n) (hn : n < cut)
variable (hbounded : stop ≤ ctx.limit) (hbefore : n < stop) (hlength : n < lines.length)
include h hfirst hn hbounded hbefore hlength

lemma Woven.itemBlocks (hitems : items.Weaving) (marker : ListMarker)
    (hcut : cut ≤ ctx.limit ∨ (itemBlocks items ctx lines n stop marker).2 ≤ cut)
    (htame : s.Tame (n + 1) (itemBlocks items ctx lines n stop marker).2
      (itemBlocks items ctx lines n stop marker).1) :
    (itemBlocks items ctx lines n stop marker).2 ≤ cut ∧
      ∃ es', Follows s s.IsLabelBlock (itemBlocks items ctx lines n stop marker).1 es' ∧
        itemBlocks items (ctx.within s cut) lines' (s.pos n) (s.top (min stop cut)) marker =
          (es', s.top (itemBlocks items ctx lines n stop marker).2) := by
  have hopens := item_opens hbounded hbefore hlength marker
  have hvoid := h.isVoid_top (Nat.lt_add_one_of_le hfirst) hn (hbefore.trans_le hbounded)
  have hsuffix : (itemLine (lines.at n) marker).1.content <:+ (lines.at n).content := by
    rw [itemLine_content]
    exact (List.dropWhile_suffix _).trans (List.drop_suffix _ _)
  rw [itemBlocks_eq] at hcut htame ⊢
  rw [itemBlocks_eq, h.at_pos hfirst hn, ← Labelling.top_succ, hvoid]
  generalize itemLine (lines.at n) marker = part at hopens hsuffix hcut htame ⊢
  dsimp only at hcut htame ⊢
  split_ifs at hcut htame ⊢ with hempty
  · -- nothing stands in the item, and the blank line behind it goes with it
    simp only [Bool.and_eq_true] at hempty
    have hlt := h.lt_cut hn (hbefore.trans_le hbounded) hempty.2
    have habove := h.above_of_void (Nat.lt_add_one_of_le hfirst) hlt hempty.2
    have hplace : s.pos n + 2 = s.top (n + 2) := by
      rw [← Labelling.top_add_one habove, Labelling.top_succ]
    refine ⟨(min_le_left _ _).trans hlt, [], .nil, ?_⟩
    rw [hplace, ← s.top_monotone.map_min]
    congr 2
    omega
  · have hwoven : Woven s cut n (ctx.item part.2).limit _ _ := h.inner hfirst hn hsuffix
    exact hitems hwoven hn hopens (fun hdepth => absurd hdepth (Nat.succ_ne_zero _)) hcut htame

end Items

section Runs

variable {rules : Context → Lines → Nat → Nat → Found} {es fs : List Event} {next past : Nat}

/-- What the rules find at a line among labels goes in front of the run behind it. -/
lemma Woven.run_found (h : Woven s cut first ctx.limit lines lines') (hfirst : first ≤ n)
    (hn : n < cut) (hready : Ready ctx lines n stop)
    (hrules : rules (ctx.within s cut) lines' (s.pos n) (s.top (min stop cut)) = (es, next))
    (hrest : Run rules (ctx.within s cut) lines' (s.top (min stop cut))
      (afterBlock lines' (s.top (min stop cut)) next) fs past) :
    Run rules (ctx.within s cut) lines' (s.top (min stop cut)) (s.pos n) (es ++ fs) past := by
  have hat := h.at_pos hfirst hn
  have hlt : s.pos n < s.top (min stop cut) := Labelling.pos_lt_top (lt_min hready.before hn)
  have hstart : (ctx.within s cut).start lines' (s.pos n) = s.pos n :=
    start_of_filled (by rw [hat, hready.filled])
  refine .block hlt ?_ ?_ ?_ hrest
  · rwa [hstart]
  · rw [hstart, hat]
    exact hready.inside
  · rwa [hstart]

/-- A label that is no code and inside the container goes in front of the run at its line. -/
lemma Woven.run_label (inner items : Reader) (h : Woven s cut first ctx.limit lines lines')
    (hfirst : first < n) (hn : n < cut) (hbefore : n < stop) (habove : s.above n = true)
    (hinside : (ctx.indent : Int) ≤ (lines'.at (s.top n)).indent)
    (hcode : ctx.isCode (lines'.at (s.top n)) = false) :
    ∃ b, s.IsLabelBlock b ∧ ∀ es past,
      Run (blockAt inner items) (ctx.within s cut) lines' (s.top (min stop cut)) (s.pos n) es past →
      Run (blockAt inner items) (ctx.within s cut) lines' (s.top (min stop cut)) (s.top n)
        (.block b :: es) past := by
  have hsets := h.sets n hfirst hn habove
  have hlt : s.top n < s.top (min stop cut) := Labelling.top_lt_top (lt_min hbefore hn)
  have hstart : (ctx.within s cut).start lines' (s.top n) = s.top n :=
    start_of_filled hsets.isLabel.filled
  have hafter : afterBlock lines' (s.top (min stop cut)) (s.top n + 1) = s.pos n := by
    rw [← Labelling.pos_of_above habove, afterBlock, h.at_pos hfirst.le hn, hsets.filled,
      Bool.and_false]
    rfl
  obtain ⟨blanks, hblanks, hbody⟩ := hsets.isLabel.body ctx.indent
  have hlabel := blockAt_label inner items (s.top (min stop cut)) hsets.isLabel
    (show (ctx.within s cut).isCode _ = false from hcode)
  rw [within_indent, hbody] at hlabel
  refine ⟨⟨.html (blanks ++ labelDirective (s.id n)), s.top n, s.top n + 1, ctx.depth⟩,
    ⟨n, habove, rfl, blanks, hblanks, rfl⟩, fun es past hrun => ?_⟩
  rw [← List.singleton_append]
  refine .block hlt (by rwa [hstart]) (by rwa [hstart]) ?_ (by rwa [hafter])
  rw [hstart, hlabel]
  rfl

end Runs

/-! ### Lists -/

lemma orderedMarker_of_bullet {content : Text} {m : ListMarker}
    (h : bulletMarker? content = some m) :
    orderedMarker? content = none := by
  cases content with
  | nil => rfl
  | cons c rest =>
      have hdigit : isDigit c = false := by
        rw [bulletMarker?] at h
        split_ifs at h with hmark
        simp only [Bool.and_eq_true, Bool.or_eq_true, beq_iff_eq] at hmark
        rcases hmark.1 with (rfl | rfl) | rfl <;> decide
      rw [orderedMarker?, List.takeWhile_cons_of_neg (by simp [hdigit]),
        List.dropWhile_cons_of_neg (by simp [hdigit])]
      rfl

/-- A list goes on with a line inside its container that is no code, has a marker, and begins no
block that ends the list. -/
lemma nextMarker_spec {l : Line} {marker m : ListMarker} (h : nextMarker? ctx l marker = some m) :
    (ctx.indent : Int) ≤ l.indent ∧ ctx.isCode l = false ∧ endsItem ctx l = false ∧
      listMarker? l.content = some m := by
  rw [nextMarker?, Option.ite_none_left_eq_some] at h
  obtain ⟨hout, h⟩ := h
  simp only [Bool.or_eq_true, decide_eq_true_eq, not_or, Bool.not_eq_true, not_lt] at hout
  refine ⟨hout.1.1, hout.1.2, hout.2, ?_⟩
  rw [listMarker?]
  cases hordered : marker.ordered with
  | true =>
      rw [hordered, if_pos rfl] at h
      rw [(Option.filter_eq_some_iff.mp h).1]
      rfl
  | false =>
      rw [hordered, if_neg Bool.false_ne_true] at h
      have hbullet := (Option.filter_eq_some_iff.mp h).1
      rw [orderedMarker_of_bullet hbullet, hbullet]
      rfl

lemma listMarker_head {content : Text} {m : ListMarker} (h : listMarker? content = some m) :
    content.head? ≠ some '$' := by
  intro hhead
  obtain ⟨rest, rfl⟩ := List.head?_eq_some_iff.mp hhead
  have hordered : orderedMarker? ('$' :: rest) = none := by
    rw [orderedMarker?, List.takeWhile_cons_of_neg (by decide),
      List.dropWhile_cons_of_neg (by decide)]
    rfl
  have hbullet : bulletMarker? ('$' :: rest) = none := by
    rw [bulletMarker?]
    simp
  rw [listMarker?, hordered, hbullet] at h
  simp at h

/-- A bare line with a label is no head of a table. -/
lemma Woven.tableHead_bare (h : Woven s cut first ctx.limit lines lines') (hfirst : first < n)
    (hn : n < cut) (hstop : stop ≤ ctx.limit) (habove : s.above n = true) (hbare : s.bare n)
    (hinside : 0 ≤ (lines.at n).indent) : tableHead? ctx lines n stop = none := by
  rw [tableHead?]
  by_cases hbar : '|' ∈ (lines.at n).content
  · rcases (show n + 1 ≤ cut from hn).lt_or_eq with hlt | hcut
    · simp [h.bare n hfirst hlt habove hbare hinside hbar]
    · by_cases hover : stop < n + 2
      · simp [hover]
      · have hedge := (h.edge (by omega)).2.2.1
        rw [← hcut] at hedge
        have hout : (lines.at (n + 1)).indent < ctx.indent := by omega
        simp [hout]
  · have hrow : (Text.unpad (lines.at n).content).contains '|' = false := by
      rw [List.contains_eq_mem, decide_eq_false_iff_not]
      exact fun hmem => hbar (trimBy_subset _ _ hmem)
    simp only [hrow, Bool.not_false, Bool.or_true, if_true]

/-- Where a list goes on at a label, a list begins behind the label. -/
lemma Woven.blockAt_item (inner items : Reader) (h : Woven s cut first ctx.limit lines lines')
    (hfirst : first < n) (hn : n < cut) (hstop : stop ≤ ctx.limit) (habove : s.above n = true)
    (hbare : s.bare n) {marker m : ListMarker}
    (hmarker : nextMarker? ctx (lines.at n) marker = some m) :
    blockAt inner items (ctx.within s cut) lines' (s.pos n) (s.top (min stop cut)) =
      let found := listItems items (ctx.within s cut) lines' (s.top (min stop cut))
        (s.top (min stop cut) - s.pos n) m (s.pos n)
      (.block ⟨if m.ordered then .orderedList else .bulletList, s.pos n, found.2, ctx.depth⟩ ::
        found.1, found.2) := by
  obtain ⟨hinside, hcode, hends, hlist⟩ := nextMarker_spec hmarker
  have hat := h.at_pos hfirst.le hn
  simp only [endsItem, Bool.or_eq_false_iff] at hends
  obtain ⟨⟨hfence, hquote⟩, hbreak⟩ := hends
  have hlead : Markdown.leadRule ctx lines n stop = none := by
    have htable : Markdown.tableRule ctx lines n stop = none := by
      rw [Markdown.tableRule, h.tableHead_bare hfirst hn hstop habove hbare (by omega)]
      rfl
    have hmath : ['$', '$'].isPrefixOf (lines.at n).content = false := by
      refine Bool.eq_false_iff.mpr fun hprefix => listMarker_head hlist ?_
      obtain ⟨rest, hrest⟩ := List.isPrefixOf_iff_prefix.mp hprefix
      rw [← hrest]
      rfl
    have hfence' : fenceOpening? (lines.at n).content = none := by
      simpa [opensFence, hcode] using hfence
    rw [Markdown.leadRule, htable, Markdown.codeRule, hcode, Markdown.mathRule, hcode, hmath,
      Markdown.fenceRule, hcode, hfence']
    rfl
  have hlead' :
      Markdown.leadRule (ctx.within s cut) lines' (s.pos n) (s.top (min stop cut)) = none := by
    rw [h.leadRule hfirst.le hn hstop (by simp [hlead]), hlead]
    rfl
  have hopening : listOpening? (ctx.within s cut) (lines.at n) false = some m := by
    have hdeep : tooDeepForItem (ctx.within s cut) (lines.at n) = false := by
      rw [tooDeepForItem]
      split
      · rw [Bool.and_eq_false_iff, decide_eq_false_iff_not, decide_eq_false_iff_not]
        exact Or.inr (Int.not_lt.mpr hinside)
      · rfl
    rw [listOpening?, isCode_within, hcode, hdeep, hlist]
    rfl
  rw [blockAt_eq, hlead', Markdown.quoteRule, hat, opensQuote_within, hquote,
    Markdown.breakRule, hat, opensBreak_within, hbreak, listRule, hat, hopening]
  rfl

/-- The items of a list, with a marker, from a line on are found among labels: those in front of the
first label of an item as one list, the others as lists of their own in the run behind it. -/
def Labelling.Splits (s : Labelling) (cut : Nat) (inner items : Reader) (ctx : Context)
    (lines' : Lines) (stop : Nat) (marker : ListMarker) (n : Nat) (found : Found) : Prop :=
  found.2 ≤ cut ∧ ∃ es' next' gs',
    (∀ fuel, s.top (min stop cut) - s.pos n ≤ fuel →
      listItems items (ctx.within s cut) lines' (s.top (min stop cut)) fuel marker (s.pos n) =
        (es', next')) ∧
    Follows s s.IsLabelBlock found.1 (es' ++ gs') ∧
    ∀ fs past, Run (blockAt inner items) (ctx.within s cut) lines' (s.top (min stop cut))
        (afterBlock lines' (s.top (min stop cut)) (s.top found.2)) fs past →
      Run (blockAt inner items) (ctx.within s cut) lines' (s.top (min stop cut))
        (afterBlock lines' (s.top (min stop cut)) next') (gs' ++ fs) past

lemma listItems_succ (inner : Reader) (ctx : Context) (lines : Lines) (stop fuel : Nat)
    (marker : ListMarker) (line : Nat) : listItems inner ctx lines stop (fuel + 1) marker line =
      let item := itemBlocks inner ctx lines line stop marker
      let events := .block ⟨.item, line, item.2, ctx.depth + 1⟩ :: item.1
      if stop ≤ item.2 then (events, item.2)
      else
        match nextMarker? ctx (lines.at item.2) marker with
        | none => (events, item.2)
        | some m =>
            let more := listItems inner ctx lines stop fuel m item.2
            (events ++ more.1, more.2) := rfl

/-- The first item of a list begins on its first line. -/
lemma listItems_head (items : Reader) (ctx : Context) (lines : Lines) (stop n : Nat) {fuel : Nat}
    (hfuel : 0 < fuel) (marker : ListMarker) :
    ∃ b, .block b ∈ (listItems items ctx lines stop fuel marker n).1 ∧ b.shape = .item ∧
      b.first = n := by
  obtain ⟨fuel, rfl⟩ := Nat.exists_eq_succ_of_ne_zero hfuel.ne'
  refine ⟨⟨.item, n, (itemBlocks items ctx lines n stop marker).2, ctx.depth + 1⟩, ?_, rfl, rfl⟩
  rw [Nat.succ_eq_add_one, listItems_succ]
  dsimp only
  split_ifs
  · exact List.mem_cons_self
  · split <;> simp

/-- The list is over behind an item, and among labels it is over there too. -/
lemma Woven.splits_of_last (h : Woven s cut first ctx.limit lines lines') {marker : ListMarker}
    {next : Nat} {es es' : List Event} {b : Block} (hb : b.shape = .item)
    (hn : s.pos n < s.top (min stop cut)) (hfirst : first < next) (hnext : next ≤ cut)
    (hfollows : Follows s s.IsLabelBlock es es')
    (hitem : Markdown.itemBlocks items (ctx.within s cut) lines' (s.pos n) (s.top (min stop cut))
      marker = (es', s.top next))
    (hover : next < stop → nextMarker? ctx (lines.at next) marker = none) :
    s.Splits cut inner items ctx lines' stop marker n (.block b :: es, next) := by
  have hlast : ¬ s.top (min stop cut) ≤ s.top next →
      nextMarker? (ctx.within s cut) (lines'.at (s.top next)) marker = none := by
    intro hstop
    have hmin := s.lt_of_top_lt (Nat.lt_of_not_le hstop)
    cases habove : s.above next with
    | true => exact (h.sets next hfirst (by omega) habove).isLabel.nextMarker _
    | false =>
        rw [h.at_top hfirst.le (by omega) habove]
        exact hover (by omega)
  refine ⟨hnext, .block ⟨.item, s.pos n, s.top next, ctx.depth + 1⟩ :: es', s.top next, [],
    fun fuel hfuel => ?_, ?_, fun fs past hrun => hrun⟩
  · obtain ⟨fuel, rfl⟩ : ∃ k, fuel = k + 1 := ⟨fuel - 1, by omega⟩
    rw [listItems_succ, hitem]
    dsimp only
    split_ifs with hstop
    · rfl
    · rw [hlast hstop]
      rfl
  · rw [List.append_nil]
    exact Follows.container (by rw [hb]; rfl) rfl hfollows

/-- The list goes on behind an item, and among labels it goes on too if the line has none. -/
lemma splits_of_next {marker m : ListMarker} {next : Nat} {es es' : List Event} {b : Block}
    {more : Found} (hb : b.shape = .item) (hn : s.pos n < s.top (min stop cut)) (hlt : n < next)
    (hnext : s.top next < s.top (min stop cut)) (habove : s.above next = false)
    (hfollows : Follows s s.IsLabelBlock es es')
    (hitem : itemBlocks items (ctx.within s cut) lines' (s.pos n) (s.top (min stop cut)) marker =
      (es', s.top next))
    (hmarker : nextMarker? (ctx.within s cut) (lines'.at (s.top next)) marker = some m)
    (hmore : s.Splits cut inner items ctx lines' stop m next more) :
    s.Splits cut inner items ctx lines' stop marker n (.block b :: es ++ more.1, more.2) := by
  obtain ⟨hpast, fs', next', gs', hlist, hrest, hrun⟩ := hmore
  have hplace := Labelling.pos_of_not_above habove
  have hbehind := Labelling.pos_lt_pos (s := s) hlt
  refine ⟨hpast, .block ⟨.item, s.pos n, s.top next, ctx.depth + 1⟩ :: es' ++ fs', next', gs',
    fun fuel hfuel => ?_, ?_, hrun⟩
  · obtain ⟨fuel, rfl⟩ : ∃ k, fuel = k + 1 := ⟨fuel - 1, by omega⟩
    rw [listItems_succ, hitem]
    dsimp only
    rw [if_neg (Nat.not_le.mpr hnext), hmarker]
    dsimp only
    rw [← hplace, hlist fuel (by omega)]
    rfl
  · rw [List.append_assoc]
    exact (Follows.container (by rw [hb]; rfl) rfl hfollows).append hrest

/-- The list goes on behind an item, but there is a label there: another list begins behind it. -/
lemma Woven.splits_of_label (h : Woven s cut first ctx.limit lines lines')
    {marker m : ListMarker} {next : Nat} {es es' : List Event} {b : Block} {more : Found}
    (hb : b.shape = .item) (hn : s.pos n < s.top (min stop cut)) (hfirst : first < next)
    (hnext : next < cut) (hbefore : next < stop) (hbounded : stop ≤ ctx.limit)
    (habove : s.above next = true) (hflush : s.flush next = false) (hbare : s.bare next)
    (hfollows : Follows s s.IsLabelBlock es es')
    (hitem : Markdown.itemBlocks items (ctx.within s cut) lines' (s.pos n)
        (s.top (min stop cut)) marker =
      (es', s.top next))
    (hmarker : nextMarker? ctx (lines.at next) marker = some m)
    (hmore : s.Splits cut inner items ctx lines' stop m next more) :
    s.Splits cut inner items ctx lines' stop marker n (.block b :: es ++ more.1, more.2) := by
  obtain ⟨hpast, fs', next', gs', hlist, hrest, hrun⟩ := hmore
  obtain ⟨hinside, hcode, -, -⟩ := nextMarker_spec hmarker
  have hsets := h.sets next hfirst hnext habove
  have hindent : (ctx.indent : Int) ≤ (lines'.at (s.top next)).indent := by
    rw [hsets.indent, hflush]
    exact hinside
  obtain ⟨label, hlabel, hrunlabel⟩ := h.run_label inner items hfirst hnext
    hbefore habove hindent (hsets.shallow hcode)
  have hfilled : (lines.at next).isVoid = false := hsets.filled
  have hready : Ready ctx lines next stop := ⟨hbounded, hbefore, hfilled, hinside⟩
  have hafter : afterBlock lines' (s.top (min stop cut)) (s.top next) = s.top next := by
    rw [afterBlock, hsets.isLabel.filled, Bool.and_false]
    rfl
  refine ⟨hpast, .block ⟨.item, s.pos n, s.top next, ctx.depth + 1⟩ :: es', s.top next,
    .block label :: .block ⟨if m.ordered then .orderedList else .bulletList, s.pos next, next',
      ctx.depth⟩ :: (fs' ++ gs'), fun fuel hfuel => ?_, ?_, fun gs past hgs => ?_⟩
  · obtain ⟨fuel, rfl⟩ : ∃ k, fuel = k + 1 := ⟨fuel - 1, by omega⟩
    rw [listItems_succ, hitem]
    dsimp only
    rw [hsets.isLabel.nextMarker]
    split_ifs <;> rfl
  · refine (Follows.container (by rw [hb]; rfl) rfl hfollows).append ?_
    refine .added (Or.inr hlabel) (.added (Or.inl ?_) hrest)
    dsimp only
    split_ifs <;> rfl
  · rw [hafter]
    have hitems := h.blockAt_item inner items hfirst hnext hbounded habove
      hbare hmarker
    rw [hlist _ le_rfl] at hitems
    have hblock := h.run_found hfirst.le hnext hready hitems (hrun gs past hgs)
    simpa using hrunlabel _ _ hblock

/-- What is woven is not over at a line where a list goes on. -/
lemma Woven.lt_cut_of_nextMarker (h : Woven s cut first ctx.limit lines lines') (hn : n ≤ cut)
    (hlimit : n ≤ ctx.limit) {marker m : ListMarker}
    (hmarker : nextMarker? ctx (lines.at n) marker = some m) : n < cut := by
  refine hn.lt_of_ne fun heq => ?_
  have hedge := (h.edge (heq ▸ hlimit)).2.2.1
  have := (nextMarker_spec hmarker).1
  rw [← heq] at hedge
  omega

lemma Woven.listItems (inner : Reader) (h : Woven s cut first ctx.limit lines lines')
    (hitems : items.Weaving) (hnests : items.Nesting)
    (hgets : items.Getting fun low high _ => low ≤ high)
    (horder : items.Getting InOrder) (hbounded : stop ≤ ctx.limit)
    {fuel : Nat} {marker : ListMarker}
    (hfuel : stop - n ≤ fuel) (hfirst : first ≤ n) (hn : n < cut) (hbefore : n < stop)
    (hlength : n < lines.length)
    (hcut : cut ≤ ctx.limit ∨ (listItems items ctx lines stop fuel marker n).2 ≤ cut)
    (htame : s.Tame (n + 1) (listItems items ctx lines stop fuel marker n).2
      (listItems items ctx lines stop fuel marker n).1) :
    s.Splits cut inner items ctx lines' stop marker n
      (listItems items ctx lines stop fuel marker n) := by
  induction fuel generalizing n marker with
  | zero => omega
  | succ fuel ih =>
      obtain ⟨hlt, hwithin⟩ := itemBlocks_nests hnests hgets hbounded marker hbefore hlength
      have hitem := h.itemBlocks hfirst hn hbounded hbefore hlength hitems marker
      have hplace : s.pos n < s.top (min stop cut) := Labelling.pos_lt_top (lt_min hbefore hn)
      rw [listItems_succ] at hcut htame ⊢
      generalize Markdown.itemBlocks items ctx lines n stop marker = item at *
      obtain ⟨events, next⟩ := item
      dsimp only at *
      split_ifs at hcut htame ⊢ with hstop
      · obtain ⟨hpast, es', hfollows, hrun⟩ := hitem hcut (htame.inside (Nat.lt_succ_self n))
        exact h.splits_of_last rfl hplace (by omega) hpast hfollows hrun
          fun hgoes => absurd hstop (Nat.not_le.mpr hgoes)
      · cases hmarker : nextMarker? ctx (lines.at next) marker with
        | none =>
            rw [hmarker] at hcut htame
            obtain ⟨hpast, es', hfollows, hrun⟩ := hitem hcut (htame.inside (Nat.lt_succ_self n))
            exact h.splits_of_last rfl hplace (by omega) hpast hfollows hrun fun _ => hmarker
        | some m =>
            rw [hmarker] at hcut htame
            dsimp only at hcut htame ⊢
            have hgoes := Nat.lt_of_not_le hstop
            have hlength' := Lines.lt_length (nextMarker_content hmarker)
            have hpos : 0 < fuel := by omega
            obtain ⟨hlt', hordered⟩ :=
              listItems_gets inOrder_law horder hbounded m hpos hgoes hlength'
            have hdeep := listItems_nests hnests hgets hbounded fuel m hgoes hlength'
            obtain ⟨b, hb, hshape, hbfirst⟩ := listItems_head items ctx lines stop next hpos m
            have hmore := @ih next m
            generalize Markdown.listItems items ctx lines stop fuel m next = more at *
            obtain ⟨htame', hrest⟩ :=
              (htame.inside (Nat.lt_succ_self n)).append hwithin hordered hlt hlt'.le
            obtain ⟨hpast, es', hfollows, hrun⟩ :=
              hitem (hcut.imp_right hlt'.le.trans) htame'
            have hnext := h.lt_cut_of_nextMarker hpast (hgoes.le.trans hbounded) hmarker
            have hsplits := hmore (by omega) (by omega) hnext hgoes hlength' hcut
              (hrest.part (Nat.le_succ _) le_rfl (fun _ => id) fun _ hb _ _ => hb)
            cases habove : s.above next with
            | false =>
                have hat := h.at_top (by omega) hnext habove
                exact splits_of_next rfl hplace hlt (s.top_lt_top (lt_min hgoes hnext)) habove
                  hfollows hrun (by rw [hat]; exact hmarker) hsplits
            | true =>
                have hflush : s.flush next = false := by
                  obtain ⟨d, hd, -, -, hflush⟩ := hrest.begins next le_rfl hlt' habove
                  refine Bool.eq_false_iff.mpr fun hflat => ?_
                  have := (hdeep d hd).1
                  have := hflush hflat
                  omega
                have hbare := hrest.items b hb hshape (hbfirst ▸ habove)
                rw [hbfirst] at hbare
                exact h.splits_of_label rfl hplace (by omega) hnext hgoes hbounded habove hflush
                  hbare hfollows hrun hmarker hsplits

/-! ### Any block -/

section Blocks

lemma leadRule_isLeaf (h : leadRule ctx lines n stop = some found) :
    ∃ isFence, IsLeaf isFence ctx n found := by
  rw [leadRule] at h
  rcases (Option.orElse_eq_some _ _ _).mp h with h | ⟨-, h⟩
  · exact ⟨false, tableRule_isLeaf h⟩
  rcases (Option.orElse_eq_some _ _ _).mp h with h | ⟨-, h⟩
  · exact ⟨false, codeRule_isLeaf h⟩
  rcases (Option.orElse_eq_some _ _ _).mp h with h | ⟨-, h⟩
  · exact ⟨false, mathRule_isLeaf h⟩
  · exact ⟨true, fenceRule_isLeaf h⟩

lemma trailRule_isLeaf : IsLeaf false ctx n (trailRule ctx lines n stop) := by
  rw [trailRule]
  cases hrule : (definitionRule ctx lines n stop <|> htmlRule ctx lines n stop <|>
      headingRule ctx lines n stop <|> underlinedRule ctx lines n stop) with
  | none => exact paragraph_isLeaf ctx lines n
  | some found =>
      rcases (Option.orElse_eq_some _ _ _).mp hrule with h | ⟨-, h⟩
      · exact definitionRule_isLeaf h
      rcases (Option.orElse_eq_some _ _ _).mp h with h | ⟨-, h⟩
      · exact htmlRule_isLeaf h
      rcases (Option.orElse_eq_some _ _ _).mp h with h | ⟨-, h⟩
      · exact headingRule_isLeaf h
      · exact underlinedRule_isLeaf h

/-- What is found at a line is found among labels from a place on, with the labels, and with
whatever follows. -/
def Labelling.Weaves (s : Labelling) (cut : Nat) (inner items : Reader) (ctx : Context)
    (lines' : Lines) (stop place : Nat) (found : Found) : Prop :=
  found.2 ≤ cut ∧ ∃ es', Follows s s.IsLabelBlock found.1 es' ∧
    ∀ fs past, Run (blockAt inner items) (ctx.within s cut) lines' (s.top (min stop cut))
        (afterBlock lines' (s.top (min stop cut)) (s.top found.2)) fs past →
      Run (blockAt inner items) (ctx.within s cut) lines' (s.top (min stop cut)) place
        (es' ++ fs) past

variable (h : Woven s cut first ctx.limit lines lines') (hfirst : first ≤ n) (hn : n < cut)
include h hfirst hn

/-- Where no container begins, none begins among labels. -/
lemma Woven.quoteRule_none (hnone : Markdown.quoteRule inner ctx lines n stop = none)
    (bound : Nat) : Markdown.quoteRule inner (ctx.within s cut) lines' (s.pos n) bound = none := by
  rw [quoteRule_eq] at hnone ⊢
  rw [h.at_pos hfirst hn, opensQuote_within]
  split_ifs at hnone ⊢
  rfl

lemma Woven.noteRule_none (hnone : Markdown.noteRule inner ctx lines n stop = none)
    (bound : Nat) : Markdown.noteRule inner (ctx.within s cut) lines' (s.pos n) bound = none := by
  rw [noteRule_eq] at hnone ⊢
  rw [h.at_pos hfirst hn, isCode_within]
  split_ifs at hnone ⊢
  · rfl
  · rw [Option.map_eq_none_iff] at hnone ⊢
    exact hnone

lemma Woven.listRule_none (hnone : Markdown.listRule items ctx lines n stop = none)
    (bound : Nat) : Markdown.listRule items (ctx.within s cut) lines' (s.pos n) bound = none := by
  rw [Markdown.listRule, Option.map_eq_none_iff] at hnone ⊢
  rw [h.at_pos hfirst hn]
  exact hnone

variable (hready : Ready ctx lines n stop)
include hready

lemma Woven.weaves_of_blockAt {es' : List Event} (hpast : found.2 ≤ cut)
    (hfollows : Follows s s.IsLabelBlock found.1 es')
    (hfound : blockAt inner items (ctx.within s cut) lines' (s.pos n) (s.top (min stop cut)) =
      (es', s.top found.2)) :
    s.Weaves cut inner items ctx lines' stop (s.pos n) found :=
  ⟨hpast, es', hfollows, fun _ _ hrun => h.run_found hfirst hn hready hfound hrun⟩

lemma Woven.weaves_of_leaf {isFence : Bool} (hleaf : IsLeaf isFence ctx n found)
    (hclear : s.Clear cut n found)
    (hfound : blockAt inner items (ctx.within s cut) lines' (s.pos n) (s.top (min stop cut)) =
      s.move found) :
    s.Weaves cut inner items ctx lines' stop (s.pos n) found :=
  h.weaves_of_blockAt hfirst hn hready hclear.1 hleaf.follows hfound

lemma Woven.listRule (hitems : items.Sound)
    (hfound : listRule items ctx lines n stop = some found)
    (hcut : cut ≤ ctx.limit ∨ found.2 ≤ cut) (htame : s.Tame (n + 1) found.2 found.1)
    (hblock : ∀ found', Markdown.listRule items (ctx.within s cut) lines' (s.pos n)
        (s.top (min stop cut)) = some found' →
      blockAt inner items (ctx.within s cut) lines' (s.pos n) (s.top (min stop cut)) = found') :
    s.Weaves cut inner items ctx lines' stop (s.pos n) found := by
  obtain ⟨marker, hmarker, rfl⟩ := Option.map_eq_some_iff.mp hfound
  dsimp only at hcut htame
  obtain ⟨hpast, es', next', gs', hlist, hfollows, hrun⟩ :=
    h.listItems inner hitems.weaving hitems.nests hitems.gets hitems.ordered hready.bounded
      le_rfl hfirst hn hready.before hready.lt_length hcut (htame.inside (Nat.lt_succ_self n))
  have hopening : listOpening? (ctx.within s cut) (lines'.at (s.pos n)) false = some marker := by
    rw [h.at_pos hfirst hn]
    exact hmarker
  have hfound' := hblock _ (by rw [Markdown.listRule, hopening]; rfl)
  dsimp only at hfound'
  rw [hlist _ le_rfl] at hfound'
  have hshape :
      (if marker.ordered then Shape.orderedList else Shape.bulletList).isContainer = true := by
    split_ifs <;> rfl
  refine ⟨hpast, .block ⟨if marker.ordered then .orderedList else .bulletList, s.pos n, next',
    ctx.depth⟩ :: (es' ++ gs'), hfollows.container hshape hshape, fun fs past hfs => ?_⟩
  have := h.run_found hfirst hn hready hfound' (hrun fs past hfs)
  simpa using this

/-- Whatever the block is that begins at a line, it is found among labels. -/
lemma Woven.weaves (hinner : inner.Sound) (hitems : items.Sound)
    (hcut : cut ≤ ctx.limit ∨ (blockAt inner items ctx lines n stop).2 ≤ cut)
    (htame : s.Tame (n + 1) (blockAt inner items ctx lines n stop).2
      (blockAt inner items ctx lines n stop).1) :
    s.Weaves cut inner items ctx lines' stop (s.pos n) (blockAt inner items ctx lines n stop) := by
  have hbound := hready.bounded
  generalize hfound : blockAt inner items ctx lines n stop = found at *
  rw [blockAt_eq] at hfound
  have hclear : ∀ {isFence}, IsLeaf isFence ctx n found → s.Clear cut n found :=
    fun hleaf => hleaf.clear h hn hcut htame
  cases hlead : Markdown.leadRule ctx lines n stop with
  | some lead =>
      rw [hlead] at hfound
      obtain rfl : lead = found := hfound
      obtain ⟨isFence, hleaf⟩ := leadRule_isLeaf hlead
      have hclear := hclear hleaf
      have hlead' := h.leadRule hfirst hn hbound fun found' hfound' => by
        rw [hlead] at hfound'
        exact Option.some.inj hfound' ▸ hclear
      refine h.weaves_of_leaf hfirst hn hready hleaf hclear ?_
      rw [blockAt_eq, hlead', hlead]
      rfl
  | none =>
  have hlead' := h.leadRule hfirst hn hbound (by simp [hlead])
  rw [hlead, Option.map_none] at hlead'
  cases hquote : Markdown.quoteRule inner ctx lines n stop with
  | some quote =>
      rw [hlead, hquote] at hfound
      obtain rfl : quote = found := hfound
      obtain ⟨hpast, es', hfollows, hquote'⟩ :=
        h.quoteRule hfirst hn hready hinner.weaving hinner.bounded hquote hcut htame
      refine h.weaves_of_blockAt hfirst hn hready hpast hfollows ?_
      rw [blockAt_eq, hlead', hquote']
      rfl
  | none =>
  have hquote' := h.quoteRule_none hfirst hn hquote (s.top (min stop cut))
  have hbreak' := h.breakRule hfirst hn stop (s.top (min stop cut))
  cases hbreak : Markdown.breakRule ctx lines n stop with
  | some thematic =>
      rw [hlead, hquote, hbreak] at hfound
      obtain rfl : thematic = found := hfound
      have hleaf := breakRule_isLeaf hbreak
      refine h.weaves_of_leaf hfirst hn hready hleaf (hclear hleaf) ?_
      rw [blockAt_eq, hlead', hquote', hbreak', hbreak]
      rfl
  | none =>
  rw [hbreak, Option.map_none] at hbreak'
  cases hlist : Markdown.listRule items ctx lines n stop with
  | some list =>
      rw [hlead, hquote, hbreak, hlist] at hfound
      obtain rfl : list = found := hfound
      refine h.listRule hfirst hn hready hitems hlist hcut htame fun found' hfound' => ?_
      rw [blockAt_eq, hlead', hquote', hbreak', hfound']
      rfl
  | none =>
  have hlist' := h.listRule_none hfirst hn hlist (s.top (min stop cut))
  cases hnote : Markdown.noteRule inner ctx lines n stop with
  | some note =>
      rw [hlead, hquote, hbreak, hlist, hnote] at hfound
      obtain rfl : note = found := hfound
      obtain ⟨hpast, es', hfollows, hnote'⟩ :=
        h.noteRule hfirst hn hready hinner.weaving hnote hcut htame
      refine h.weaves_of_blockAt hfirst hn hready hpast hfollows ?_
      rw [blockAt_eq, hlead', hquote', hbreak', hlist', hnote']
      rfl
  | none =>
  have hnote' := h.noteRule_none hfirst hn hnote (s.top (min stop cut))
  rw [hlead, hquote, hbreak, hlist, hnote] at hfound
  obtain rfl : Markdown.trailRule ctx lines n stop = found := hfound
  refine h.weaves_of_leaf hfirst hn hready trailRule_isLeaf (hclear trailRule_isLeaf) ?_
  have htrail := h.trailRule hfirst hn hbound (hclear trailRule_isLeaf) htame.headings
  rw [blockAt_eq, hlead', hquote', hbreak', hlist', hnote']
  exact htrail

end Blocks

end Rules

end Galley.Markdown
