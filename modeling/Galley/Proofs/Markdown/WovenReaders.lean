import Galley.Proofs.Markdown.WovenBlocks
import Mathlib.Tactic

/-!
Runs and readers among labels.

* `Woven.run_above`: a label above a block is found in front of the block;
* `Woven.run`: a run among labels finds what it finds without them, and the labels;
* `reader_sound`: so does a reader, however many containers there is room for.
-/

namespace Galley.Markdown

section Runs

variable {inner items : Reader} {s : Labelling} {cut first n stop : Nat} {ctx : Context}
variable {lines lines' : Lines} {es : List Event} {past : Nat}

variable (h : Woven s cut first ctx.limit lines lines')
include h

/-- The line where a block is looked for has its label, or is there itself, where a block is looked
for among the labels. -/
lemma Woven.start_top (hfirst : first < n) (hn : n ≤ cut) (hlimit : n ≤ ctx.limit) :
    (ctx.within s cut).start lines' (s.top n) = s.top (ctx.start lines n) ∧
      ctx.start lines n ≤ cut := by
  obtain ⟨k, hk⟩ : ∃ k, ctx.limit = n + k := Nat.exists_eq_add_of_le hlimit
  induction k generalizing n with
  | zero =>
      have hover : ctx.limit - n = 0 := by omega
      have hover' : s.top (min ctx.limit cut) - s.top n = 0 :=
        Labelling.rest_zero (Or.inl (by omega))
      rw [Context.start, Context.start, within_limit, hover, hover']
      exact ⟨rfl, hn⟩
  | succ k ih =>
      have hvoid' := h.isVoid_top hfirst hn hlimit
      cases hvoid : (lines.at n).isVoid with
      | false =>
          rw [hvoid] at hvoid'
          rw [start_of_filled hvoid, start_of_filled hvoid']
          exact ⟨rfl, hn⟩
      | true =>
          rw [hvoid] at hvoid'
          have hlt := h.lt_cut hn hlimit hvoid
          have hbefore : s.top n < (ctx.within s cut).limit :=
            Labelling.top_lt_top (lt_min (by omega) hlt)
          rw [start_of_void hvoid (by omega), start_of_void hvoid' hbefore,
            Labelling.top_add_one (h.above_of_void hfirst hlt hvoid)]
          exact ih (by omega) hlt (by omega) (by omega)

/-- Behind a block the run goes on where it does without labels. -/
lemma Woven.afterBlock_top (hfirst : first < n) (hn : n ≤ cut) (hbounded : stop ≤ ctx.limit) :
    afterBlock lines' (s.top (min stop cut)) (s.top n) = s.top (afterBlock lines stop n) ∧
      afterBlock lines stop n ≤ cut := by
  by_cases hstop : n < stop
  · have hvoid' := h.isVoid_top hfirst hn (hstop.le.trans hbounded)
    rw [afterBlock, afterBlock, hvoid']
    cases hvoid : (lines.at n).isVoid with
    | false => simpa using hn
    | true =>
        have hlt := h.lt_cut hn (hstop.le.trans hbounded) hvoid
        have hbefore : s.top n < s.top (min stop cut) := Labelling.top_lt_top (lt_min hstop hlt)
        simp [hstop, hbefore, Labelling.top_add_one (h.above_of_void hfirst hlt hvoid)]
        omega
  · have hover : ¬ s.top n < s.top (min stop cut) :=
      Nat.not_lt.mpr (s.top_mono ((min_le_left _ _).trans (Nat.le_of_not_lt hstop)))
    rw [afterBlock, afterBlock]
    simp [hstop, hover, hn]

section Above

variable (hfirst : first < n) (hn : n < cut) (hready : Ready ctx lines n stop)
include hfirst hn hready

/-- A block with a label above it is found among labels, and so is its label. -/
lemma Woven.run_above (hinner : inner.Sound) (hitems : items.Sound)
    (hdepth : ctx.depth = 0 → ctx.indent = 0)
    (hcut : cut ≤ ctx.limit ∨ (blockAt inner items ctx lines n stop).2 ≤ cut)
    (htame : s.Tame n (blockAt inner items ctx lines n stop).2
      (blockAt inner items ctx lines n stop).1) :
    s.Weaves cut inner items ctx lines' stop (s.top n) (blockAt inner items ctx lines n stop) := by
  have hnests := blockAt_nests hinner.nests hitems.nests hinner.gets hitems.gets hready
  have hlt := (blockAt_gets le_law hinner.gets hitems.gets hready).1
  obtain ⟨hpast, es', hfollows, hrun⟩ := h.weaves hfirst.le hn hready hinner hitems hcut
    (htame.part (Nat.le_succ n) le_rfl (fun _ => id) fun _ hb _ _ => hb)
  refine ⟨hpast, ?_⟩
  cases habove : s.above n with
  | false =>
      rw [Labelling.pos_of_not_above habove] at hrun
      exact ⟨es', hfollows, hrun⟩
  | true =>
      have hsets := h.sets n hfirst hn habove
      obtain ⟨b, hb, -, hflush, hflat⟩ := htame.begins n le_rfl hlt habove
      have hplace : (ctx.indent : Int) ≤ (lines'.at (s.top n)).indent ∧
          ctx.isCode (lines'.at (s.top n)) = false := by
        cases hflushed : s.flush n with
        | true =>
            -- the label is flush where no container is around
            have hzero : ctx.indent = 0 := hdepth <| by
              have := (hnests b hb).1
              have := hflat hflushed
              omega
            have hindent := hsets.indent
            rw [hflushed, if_pos rfl] at hindent
            refine ⟨by omega, ?_⟩
            rw [Context.isCode, decide_eq_false_iff_not]
            omega
        | false =>
            have hindent := hsets.indent
            rw [hflushed, if_neg Bool.false_ne_true] at hindent
            have hshallow : ctx.isCode (lines.at n) = false := by
              refine Bool.eq_false_iff.mpr fun hcode => ?_
              rw [hflush.mpr (blockAt_isCode hcode b hb)] at hflushed
              exact Bool.noConfusion hflushed
            exact ⟨hindent ▸ hready.inside, hsets.shallow hshallow⟩
      obtain ⟨label, hlabel, hrunlabel⟩ := h.run_label inner items hfirst hn
        hready.before habove hplace.1 hplace.2
      exact ⟨.block label :: es', .added (Or.inr hlabel) hfollows,
        fun fs past hfs => hrunlabel _ _ (hrun fs past hfs)⟩

end Above

/-! ### Runs -/

/-- A run among labels from a place on finds what is found without them, and the labels. -/
def Labelling.Runs (s : Labelling) (cut : Nat) (inner items : Reader) (ctx : Context)
    (lines' : Lines) (stop place : Nat) (es : List Event) (past : Nat) : Prop :=
  past ≤ cut ∧ ∃ es', Follows s s.IsLabelBlock es es' ∧
    Run (blockAt inner items) (ctx.within s cut) lines' (s.top (min stop cut)) place es'
      (s.top past)

variable {place next : Nat} {fs : List Event}

/-- A run that is left among lines is left among labels. -/
lemma Woven.run_left {rules : Context → Lines → Nat → Nat → Found}
    (hplace : place < s.top (min stop cut))
    (hstart : (ctx.within s cut).start lines' place = s.top (ctx.start lines n))
    (hfirst : first < ctx.start lines n) (hn : ctx.start lines n ≤ cut)
    (hleft : stop ≤ ctx.start lines n ∨ (lines.at (ctx.start lines n)).indent < ctx.indent) :
    Run rules (ctx.within s cut) lines' (s.top (min stop cut)) place []
      (s.top (ctx.start lines n)) := by
  rw [← hstart]
  refine .left hplace ?_
  rw [hstart]
  rcases hn.lt_or_eq with hlt | heq
  · refine hleft.imp (fun hstop => s.top_mono ((min_le_left _ _).trans hstop)) fun hout => ?_
    rw [within_indent]
    cases habove : s.above (ctx.start lines n) with
    | true => exact (h.sets _ hfirst hlt habove).indent_le.trans_lt hout
    | false => rwa [h.at_top hfirst.le hlt habove]
  · exact Or.inl (s.top_mono ((min_le_right _ _).trans heq.ge))

/-- What is found at a line goes in front of the run behind it. -/
lemma Woven.runs_append (hbounded : stop ≤ ctx.limit) (hnext : first < next)
    (hweaves : s.Weaves cut inner items ctx lines' stop place (es, next))
    (hruns : afterBlock lines stop next ≤ cut →
      s.Runs cut inner items ctx lines' stop (s.top (afterBlock lines stop next)) fs past) :
    s.Runs cut inner items ctx lines' stop place (es ++ fs) past := by
  obtain ⟨hcut, es', hfollows, hrun⟩ := hweaves
  obtain ⟨hafter, hbehind⟩ := h.afterBlock_top hnext hcut hbounded
  obtain ⟨hpast, fs', hfollows', hrun'⟩ := hruns hbehind
  rw [← hafter] at hrun'
  exact ⟨hpast, es' ++ fs', hfollows.append hfollows', hrun fs' _ hrun'⟩

omit h in
/-- The labels of a block and of the run behind it. -/
lemma tame_split (hinner : inner.Sound) (hitems : items.Sound) (hready : Ready ctx lines n stop)
    (hfound : blockAt inner items ctx lines n stop = (es, next)) {low : Nat} (hlow : low ≤ n + 1)
    (hrest : Run (blockAt inner items) ctx lines stop (afterBlock lines stop next) fs past)
    (htame : s.Tame low past (es ++ fs)) :
    next ≤ past ∧ s.Tame low next es ∧ s.Tame (afterBlock lines stop next) past fs := by
  have hnests := blockAt_nests hinner.nests hitems.nests hinner.gets hitems.gets hready
  have hlt := (blockAt_gets le_law hinner.gets hitems.gets hready).1
  rw [hfound] at hnests hlt
  have hafter : next ≤ afterBlock lines stop next := le_afterBlock next
  have hle := hrest.law hready.bounded le_law fun _ => blockAt_gets le_law hinner.gets hitems.gets
  have hordered := hrest.law hready.bounded inOrder_law
    fun _ => blockAt_gets inOrder_law hinner.ordered hitems.ordered
  dsimp only at hle hlt
  obtain ⟨hes, hfs⟩ := htame.append hnests (hordered.mono_left hafter) (by omega) (by omega)
  exact ⟨by omega, hes, hfs.part hafter le_rfl (fun _ => id) fun _ hb _ _ => hb⟩

section Sound

variable (hinner : inner.Sound) (hitems : items.Sound) (hbounded : stop ≤ ctx.limit)
variable (hdepth : ctx.depth = 0 → ctx.indent = 0)
include hinner hitems hbounded hdepth

/-- A block behind the first line is found among labels, and so is the run behind it. -/
lemma Woven.runs_block {low : Nat} (hplace : place < s.top (min stop cut))
    (hplaced : (ctx.within s cut).start lines' place = s.top (ctx.start lines n))
    (hfirst : first < ctx.start lines n) (hn : ctx.start lines n ≤ cut)
    (hstart : ctx.start lines n < stop)
    (hinside : (ctx.indent : Int) ≤ (lines.at (ctx.start lines n)).indent)
    (hfound : blockAt inner items ctx lines (ctx.start lines n) stop = (es, next))
    (hrest : Run (blockAt inner items) ctx lines stop (afterBlock lines stop next) fs past)
    (hcut : cut ≤ ctx.limit ∨ past ≤ cut) (hlow : low ≤ ctx.start lines n)
    (htame : s.Tame low past (es ++ fs))
    (hruns : first < afterBlock lines stop next → afterBlock lines stop next ≤ cut →
      s.Tame (afterBlock lines stop next) past fs →
      s.Runs cut inner items ctx lines' stop (s.top (afterBlock lines stop next)) fs past) :
    s.Runs cut inner items ctx lines' stop place (es ++ fs) past := by
  have hlt : ctx.start lines n < cut := by
    refine hn.lt_of_ne fun heq => ?_
    have hedge := (h.edge (by omega)).2.2.1
    rw [← heq] at hedge
    omega
  have hready := ready_start hbounded hstart hinside
  obtain ⟨hpast, hes, hfs⟩ := tame_split hinner hitems hready hfound (by omega) hrest htame
  have hnext := (blockAt_gets le_law hinner.gets hitems.gets hready).1
  have hweaves := h.run_above hfirst hlt hready hinner hitems hdepth
    (hcut.imp_right fun hpast' => by rw [hfound]; exact hpast.trans hpast')
    (by rw [hfound]; exact hes.part hlow le_rfl (fun _ => id) fun _ hb _ _ => hb)
  rw [hfound] at hweaves hnext
  have hafter : next ≤ afterBlock lines stop next := le_afterBlock next
  dsimp only at hnext
  obtain ⟨hpast', es', hfollows, hrun⟩ := h.runs_append hbounded (by omega) hweaves
    fun hbehind => hruns (by omega) hbehind hfs
  rw [← hplaced] at hrun
  refine ⟨hpast', es', hfollows, hrun.back (s.top_mono (min_le_min_right _ hbounded)) hplace ?_⟩
  rw [hplaced]
  exact Labelling.top_lt_top (lt_min hstart hlt)

/-- A run finds among labels what it finds without them, and the labels. -/
lemma Woven.run (hfirst : first < n) (hn : n ≤ cut)
    (hrun : Run (blockAt inner items) ctx lines stop n es past)
    (hcut : cut ≤ ctx.limit ∨ past ≤ cut) (htame : s.Tame n past es) :
    s.Runs cut inner items ctx lines' stop (s.top n) es past := by
  induction hrun with
  | @ended n hover =>
      exact ⟨hn, [], .nil, .ended (s.top_mono ((min_le_left _ _).trans hover))⟩
  | @left n hline hleft =>
      obtain ⟨hplaced, hle⟩ := h.start_top hfirst hn (by omega)
      have hbehind : n ≤ ctx.start lines n := le_start
      rcases hn.lt_or_eq with hlt | rfl
      · exact ⟨hle, [], .nil,
          h.run_left (Labelling.top_lt_top (lt_min hline hlt)) hplaced (by omega) hle hleft⟩
      · -- the lines are over
        rw [le_antisymm hle hbehind]
        exact ⟨le_rfl, [], .nil, .ended (s.top_mono (min_le_right _ _))⟩
  | @block n next past es fs hline hstart hinside hfound hrest ih =>
      obtain ⟨hplaced, hle⟩ := h.start_top hfirst hn (by omega)
      have hbehind : n ≤ ctx.start lines n := le_start
      have hlt : n < cut := by
        refine hn.lt_of_ne fun heq => ?_
        have hedge := (h.edge (by omega)).2.2.1
        rw [← heq, ← le_antisymm (heq ▸ hle) hbehind] at hedge
        omega
      exact h.runs_block hinner hitems hbounded hdepth (Labelling.top_lt_top (lt_min hline hlt))
        hplaced (by omega) hle hstart hinside hfound hrest hcut hbehind htame
        fun hfirst' hcut' => ih hfirst' hcut' hcut

end Sound

end Runs

section Readers

variable {inner items : Reader} {s : Labelling} {cut n stop : Nat} {ctx : Context}
variable {lines lines' : Lines} {es : List Event} {past : Nat}

/-- Where reading begins at a blank line itself and not at its label, it goes on with the lines
behind it. -/
lemma Woven.start_pos (h : Woven s cut n ctx.limit lines lines') (hn : n < cut)
    (hlimit : n < ctx.limit) (hvoid : (lines.at n).isVoid = true) :
    (ctx.within s cut).start lines' (s.pos n) = s.top (ctx.start lines n) ∧
      ctx.start lines n ≤ cut ∧ n < ctx.start lines n := by
  have hat := h.at_pos le_rfl hn
  have hbefore : s.pos n < (ctx.within s cut).limit := Labelling.pos_lt_top (lt_min hlimit hn)
  obtain ⟨hplaced, hle⟩ := h.start_top (Nat.lt_succ_self n) hn hlimit
  rw [Labelling.top_succ, ← start_of_void (by rw [hat, hvoid]) hbefore] at hplaced
  rw [start_of_void hvoid hlimit]
  exact ⟨hplaced, hle, le_start⟩

/-- A run from the first line on finds among labels what it finds without them, and the labels
behind that line. -/
lemma Woven.run_first (h : Woven s cut n ctx.limit lines lines') (hn : n < cut)
    (hopens : Opens ctx lines n stop) (hinner : inner.Sound) (hitems : items.Sound)
    (hdepth : ctx.depth = 0 → ctx.indent = 0)
    (hrun : Run (blockAt inner items) ctx lines stop n es past)
    (hcut : cut ≤ ctx.limit ∨ past ≤ cut) (htame : s.Tame (n + 1) past es) :
    s.Runs cut inner items ctx lines' stop (s.pos n) es past := by
  have hbounded := hopens.bounded
  have hplace : s.pos n < s.top (min stop cut) := Labelling.pos_lt_top (lt_min hopens.before hn)
  cases hvoid : (lines.at n).isVoid with
  | true =>
      obtain ⟨hplaced, hle, hbehind⟩ := h.start_pos hn (hopens.before.trans_le hbounded) hvoid
      cases hrun with
      | ended hover => exact absurd hopens.before (Nat.not_lt.mpr hover)
      | left _ hleft => exact ⟨hle, [], .nil, h.run_left hplace hplaced hbehind hle hleft⟩
      | block _ hstart hinside hfound hrest =>
          exact h.runs_block hinner hitems hbounded hdepth hplace hplaced hbehind hle hstart hinside
            hfound hrest hcut hbehind htame
            fun hfirst hcut' hfs => h.run hinner hitems hbounded hdepth hfirst hcut' hrest hcut hfs
  | false =>
      have hsame : ctx.start lines n = n := start_of_filled hvoid
      have hinside := hopens.inside.resolve_left (by simp [hvoid])
      have hready : Ready ctx lines n stop := ⟨hbounded, hopens.before, hvoid, hinside⟩
      cases hrun with
      | ended hover => exact absurd hopens.before (Nat.not_lt.mpr hover)
      | left _ hleft =>
          rw [hsame] at hleft
          have := hopens.before
          omega
      | @block _ next past es fs _ _ _ hfound hrest =>
          rw [hsame] at hfound
          have hnext := (blockAt_gets le_law hinner.gets hitems.gets hready).1
          have hafter : next ≤ afterBlock lines stop next := le_afterBlock next
          obtain ⟨hpast, hes, hfs⟩ := tame_split hinner hitems hready hfound le_rfl hrest htame
          have hweaves := h.weaves le_rfl hn hready hinner hitems
            (hcut.imp_right fun hpast' => by rw [hfound]; exact hpast.trans hpast')
            (by rw [hfound]; exact hes)
          rw [hfound] at hweaves hnext
          dsimp only at hnext
          exact h.runs_append hbounded hnext hweaves fun hbehind =>
            h.run hinner hitems hbounded hdepth (by omega) hbehind hrest hcut hfs

lemma blocksWith_weaving (hinner : inner.Sound) (hitems : items.Sound) :
    (blocksWith inner items).Weaving := by
  intro s cut ctx lines lines' n stop h hn hopens hdepth hcut htame
  have hrun : Run (blockAt inner items) ctx lines stop n (blocksWith inner items ctx lines n stop).1
      (blocksWith inner items ctx lines n stop).2 :=
    run_sequence hopens.bounded
      (fun _ hready => (blockAt_gets le_law hinner.gets hitems.gets hready).1) le_rfl
  obtain ⟨hpast, es', hfollows, hrun'⟩ := h.run_first hn hopens hinner hitems hdepth hrun hcut htame
  refine ⟨hpast, es', hfollows, sequence_eq_of_run (s.top_mono (min_le_min_right _ hopens.bounded))
    (fun _ hready => (blockAt_gets le_law hinner.gets hitems.gets hready).1) le_rfl hrun'⟩

/-- A block that takes all that is left ends the run. -/
lemma run_skip (hline : n < stop) (hstart : ctx.start lines n < stop)
    (hinside : (ctx.indent : Int) ≤ (lines.at (ctx.start lines n)).indent) :
    Run (fun _ _ _ stop => ([], stop)) ctx lines stop n [] stop := by
  have hrest : Run (fun _ _ _ stop => ([], stop)) ctx lines stop (afterBlock lines stop stop) []
      stop := by
    rw [afterBlock, decide_eq_false (Nat.lt_irrefl stop), Bool.false_and]
    exact .ended le_rfl
  exact .block hline hstart hinside rfl hrest

/-- Lines without labels that are skipped are skipped among labels. -/
lemma Woven.run_skip (h : Woven s cut n ctx.limit lines lines') (hn : n < cut)
    (hopens : Opens ctx lines n stop) (hquiet : s.Quiet (n + 1) stop) (hpast : stop ≤ cut)
    (hstart : ctx.start lines n < stop)
    (hinside : (ctx.indent : Int) ≤ (lines.at (ctx.start lines n)).indent) :
    Run (fun _ _ _ stop => ([], stop)) (ctx.within s cut) lines' (s.top stop) (s.pos n) []
      (s.top stop) := by
  have hplace : s.pos n < s.top stop := Labelling.pos_lt_top hopens.before
  cases hvoid : (lines.at n).isVoid with
  | true =>
      obtain ⟨hplaced, hle, hlt⟩ := h.start_pos hn (hopens.before.trans_le hopens.bounded) hvoid
      refine Markdown.run_skip hplace ?_ ?_
      · rw [hplaced]
        exact Labelling.top_lt_top hstart
      · rw [hplaced, h.at_top hlt.le (hstart.trans_le hpast) (hquiet _ hlt hstart)]
        exact hinside
  | false =>
      have hat := h.at_pos le_rfl hn
      have hsame : (ctx.within s cut).start lines' (s.pos n) = s.pos n :=
        start_of_filled (by rw [hat, hvoid])
      rw [start_of_filled hvoid] at hinside
      refine Markdown.run_skip hplace ?_ ?_
      · rwa [hsame]
      · rwa [hsame, hat]

/-- Whatever lies inside too many containers is skipped among labels too; there are none in it. -/
lemma skipDeep_weaving : skipDeep.Weaving := by
  intro s cut ctx lines lines' n stop h hn hopens _ hcut htame
  have hbounded := hopens.bounded
  have hbefore := hopens.before
  have hplace : s.pos n < s.top (min stop cut) := Labelling.pos_lt_top (lt_min hbefore hn)
  have hrun : Run (fun _ _ _ stop => ([], stop)) ctx lines stop n (skipDeep ctx lines n stop).1
      (skipDeep ctx lines n stop).2 :=
    run_sequence hbounded (fun _ hready => hready.before) le_rfl
  suffices hwoven : (skipDeep ctx lines n stop).2 ≤ cut ∧ (skipDeep ctx lines n stop).1 = [] ∧
      Run (fun _ _ _ stop => ([], stop)) (ctx.within s cut) lines' (s.top (min stop cut))
        (s.pos n) [] (s.top (skipDeep ctx lines n stop).2) by
    obtain ⟨hpast, hempty, hrun'⟩ := hwoven
    refine ⟨hpast, [], ?_, sequence_eq_of_run (s.top_mono (min_le_min_right _ hbounded))
      (fun _ hready => hready.before) le_rfl hrun'⟩
    rw [hempty]
    exact .nil
  generalize skipDeep ctx lines n stop = found at *
  obtain ⟨es, past⟩ := found
  dsimp only at *
  cases hrun with
  | ended hover => omega
  | left _ hleft =>
      cases hvoid : (lines.at n).isVoid with
      | true =>
          obtain ⟨hplaced, hle, hlt⟩ := h.start_pos hn (by omega) hvoid
          exact ⟨hle, rfl, h.run_left hplace hplaced hlt hle hleft⟩
      | false =>
          have hinside := hopens.inside.resolve_left (by simp [hvoid])
          rw [start_of_filled hvoid] at hleft
          omega
  | @block _ next past es fs _ hstart hinside hfound hrest =>
      obtain ⟨rfl, rfl⟩ := Prod.mk.inj hfound
      have hafter : afterBlock lines stop stop = stop := by simp [afterBlock]
      rw [hafter] at hrest
      cases hrest with
      | left hover => omega
      | block hover => omega
      | ended =>
          -- no label is there, for no block is found
          have hquiet : s.Quiet (n + 1) stop := by
            intro m hm hlt
            refine Bool.eq_false_iff.mpr fun habove => ?_
            obtain ⟨b, hb, -⟩ := htame.begins m hm hlt habove
            simp at hb
          have hpast : stop ≤ cut := by
            refine hcut.elim (fun hlimit => ?_) id
            by_contra hover
            have := hquiet cut hn (Nat.lt_of_not_le hover)
            rw [(h.edge hlimit).1] at this
            exact Bool.noConfusion this
          rw [min_eq_left hpast]
          exact ⟨hpast, rfl, h.run_skip hn hopens hquiet hpast hstart hinside⟩

lemma skipDeep_sound : skipDeep.Sound where
  weaving := skipDeep_weaving
  bounded := skipDeep_bounded
  nests := skipDeep_nesting
  gets := skipDeep_getting le_law
  ordered := skipDeep_getting inOrder_law

lemma blocksWith_sound (hinner : inner.Sound) (hitems : items.Sound) :
    (blocksWith inner items).Sound where
  weaving := blocksWith_weaving hinner hitems
  bounded := blocksWith_bounded hinner.bounded hitems.bounded
  nests := blocksWith_nesting hinner.nests hitems.nests hinner.gets hitems.gets
  gets := blocksWith_getting le_law hinner.gets hitems.gets
  ordered := blocksWith_getting inOrder_law hinner.ordered hitems.ordered

/-- However many containers there is room for, a reader finds among labels what it finds without
them, and the labels. -/
theorem reader_sound (room : Nat) : (reader room).Sound := by
  induction room using reader.induct with
  | case1 => exact skipDeep_sound
  | case2 => exact blocksWith_sound skipDeep_sound skipDeep_sound
  | case3 room ih ih' => exact blocksWith_sound ih ih'

end Readers

end Galley.Markdown
