import Galley.Proofs.Anchors
import Galley.Proofs.Markdown.Openings
import Galley.Proofs.Preparing
import Galley.Proofs.Trimming
import Mathlib.Tactic

/-!
Positions by a plain rescan, and lines by a plain split. The table of lines finds an offset by its
prefix sums; the breaks in front of the offset, counted one by one, give the same position.

* `breakEndsAt`, `breakEnds`: where a break ends, and the ends of breaks up to an offset;
* `offsets_starts`: the lines start at the ends of the breaks;
* `lineColumn_rescan`: the line is the number of breaks that end at or before an offset, and the
  column the distance from the last of them;
* `splitAt_lineFeeds`, `slice_eq_lineText`: the lines are what a split at line feeds gives when all
  breaks are made line feeds;
* `position_rescan`: the whole account.
-/

namespace Galley

/-! ### Ends of breaks -/

/-- A break ends at an offset: a line feed is in front of it, or a carriage return without a line
feed behind it. -/
def breakEndsAt (t : Text) : Nat → Bool
  | 0 => false
  | n + 1 => t[n]? == some '\n' || (t[n]? == some '\r' && t[n + 1]? != some '\n')

/-- The ends of the breaks up to an offset. -/
def breakEnds (t : Text) (offset : Nat) : List Nat :=
  (List.range (offset + 1)).filter (breakEndsAt t)

/-- One more character in front moves the ends of the breaks, and may end a break itself. -/
lemma breakEnds_cons (c : Char) (cs : Text) (offset : Nat) :
    breakEnds (c :: cs) (offset + 1) =
      (if breakEndsAt (c :: cs) 1 then [1] else []) ++ (breakEnds cs offset).map (· + 1) := by
  have hmove : ∀ n, breakEndsAt (c :: cs) (n + 2) = breakEndsAt cs (n + 1) := fun n => by
    simp [breakEndsAt]
  rw [breakEnds, breakEnds, List.range_succ_eq_map, List.range_succ_eq_map,
    List.filter_cons_of_neg (by simp [breakEndsAt]), List.map_cons, List.filter_cons,
    List.filter_cons_of_neg (by simp [breakEndsAt]), List.map_map, List.filter_map,
    List.filter_map, List.map_map]
  simp only [Function.comp_def, hmove]
  split_ifs <;> rfl

/-- Further ends lie behind the offset. -/
lemma breakEnds_add (t : Text) (offset n : Nat) :
    ∃ further, breakEnds t (offset + n) = breakEnds t offset ++ further ∧
      ∀ e ∈ further, offset < e := by
  refine ⟨((List.range n).map (offset + 1 + ·)).filter (breakEndsAt t), ?_, fun e he => ?_⟩
  · rw [breakEnds, breakEnds, ← List.filter_append, ← List.range_add, Nat.add_right_comm]
  · obtain ⟨k, -, rfl⟩ := List.mem_map.mp (List.mem_filter.mp he).1
    omega

lemma le_of_mem_breakEnds {t : Text} {offset e : Nat} (h : e ∈ breakEnds t offset) :
    e ≤ offset := by
  have := List.mem_range.mp (List.mem_filter.mp h).1
  omega

/-- The end of the last break does not lie behind the offset. -/
lemma last_breakEnds_le (t : Text) (offset : Nat) :
    (breakEnds t offset).getLast?.getD 0 ≤ offset := by
  cases hlast : (breakEnds t offset).getLast? with
  | none => exact Nat.zero_le _
  | some e => exact le_of_mem_breakEnds (List.mem_of_getLast? hlast)

/-! ### The table -/

lemma map_add_succ (k : Nat) (ends : List Nat) :
    (ends.map (· + 1)).map (k + ·) = ends.map (k + 1 + ·) := by
  rw [List.map_map]
  refine List.map_congr_left fun n _ => ?_
  simp only [Function.comp_apply]
  omega

/-- Lines start where breaks end. -/
lemma offsets_lineStartsAux (place : LineStart) (t : Text) :
    (lineStartsAux place t).map LineStart.offset =
      (breakEnds t t.length).map (place.offset + ·) := by
  induction place, t using lineStartsAux.induct with
  | case1 place => rfl
  | case2 place cs next ih =>
      -- the break ends behind the line feed, not between the two
      have hinside : breakEndsAt ('\r' :: '\n' :: cs) 1 = false := by simp [breakEndsAt]
      have hend : breakEndsAt ('\n' :: cs) 1 = true := by simp [breakEndsAt]
      rw [lineStartsAux, List.map_cons, ih, List.length_cons, List.length_cons, breakEnds_cons,
        breakEnds_cons, hinside, if_neg Bool.false_ne_true, List.nil_append, map_add_succ,
        if_pos hend, List.map_append, map_add_succ]
      rfl
  | case3 place c cs hpair next hbreak ih =>
      have hend : breakEndsAt (c :: cs) 1 = true := by
        simp only [isLineBreak, Bool.or_eq_true, beq_iff_eq] at hbreak
        rcases hbreak with rfl | rfl
        · rfl
        · cases cs with
          | nil => rfl
          | cons d ds =>
              have hd : d ≠ '\n' := fun hd => hpair ds rfl (by rw [hd])
              simp [breakEndsAt, hd]
      rw [lineStartsAux.eq_3 _ _ _ hpair, if_pos hbreak, List.map_cons, ih, List.length_cons,
        breakEnds_cons, if_pos hend, List.map_append, map_add_succ]
      rfl
  | case4 place c cs hpair next hbreak ih =>
      have hend : breakEndsAt (c :: cs) 1 = false := by
        simp only [isLineBreak, Bool.or_eq_true, not_or] at hbreak
        simp [breakEndsAt, hbreak.1, hbreak.2]
      rw [lineStartsAux.eq_3 _ _ _ hpair, if_neg hbreak, ih, List.length_cons, breakEnds_cons,
        hend, if_neg Bool.false_ne_true, List.nil_append, map_add_succ]

namespace LineTable

variable (t : Text)

/-- The first line starts at the beginning, the others where breaks end. -/
lemma offsets_starts :
    (ofText t).starts.map LineStart.offset = 0 :: breakEnds t t.length := by
  rw [ofText, List.map_cons, offsets_lineStartsAux]
  simp

/-- The starts that do not lie behind an offset. -/
lemma offsets_startsUpTo {offset : Nat} (h : offset ≤ t.length) :
    ((ofText t).startsUpTo offset).map LineStart.offset = 0 :: breakEnds t offset := by
  obtain ⟨n, hn⟩ := Nat.exists_eq_add_of_le h
  obtain ⟨further, hfurther, hbehind⟩ := breakEnds_add t offset n
  have hstop : further.takeWhile (· ≤ offset) = [] :=
    takeWhile_of_head fun e he => by simpa using hbehind e (List.mem_of_mem_head? he)
  have hmap : ((ofText t).startsUpTo offset).map LineStart.offset =
      ((ofText t).starts.map LineStart.offset).takeWhile (· ≤ offset) := by
    rw [startsUpTo, List.takeWhile_map]
    rfl
  rw [hmap, offsets_starts, hn, hfurther, List.takeWhile_cons_of_pos (by simp),
    List.takeWhile_append_of_pos, hstop, List.append_nil]
  intro e he
  simpa using le_of_mem_breakEnds he

/-- The line of an offset is the number of breaks that end at or before it, and its column is the
distance from the end of the last of them. -/
lemma lineColumn_rescan {offset : Nat} (h : offset ≤ t.length) :
    (ofText t).lineColumn offset =
      ((breakEnds t offset).length, offset - (breakEnds t offset).getLast?.getD 0) := by
  have hoffsets := offsets_startsUpTo t h
  have hlength := congrArg List.length hoffsets
  have hlast := congrArg List.getLast? hoffsets
  rw [List.length_map, List.length_cons] at hlength
  rw [List.getLast?_map, List.getLast?_cons] at hlast
  rw [lineColumn, lineAt]
  dsimp only
  cases hpassed : ((ofText t).startsUpTo offset).getLast? with
  | none => simp [hpassed] at hlast
  | some start =>
      rw [hpassed, Option.map_some, Option.some.injEq] at hlast
      rw [hlength, Nat.add_sub_cancel, Option.getD_some, hlast]

/-- Behind more of the text there are more breaks, or the last one is farther away. -/
lemma lineColumn_lt {m n : Nat} (h : m < n) (hn : n ≤ t.length) :
    ((ofText t).lineColumn m).1 < ((ofText t).lineColumn n).1 ∨
      ((ofText t).lineColumn m).1 = ((ofText t).lineColumn n).1 ∧
        ((ofText t).lineColumn m).2 < ((ofText t).lineColumn n).2 := by
  obtain ⟨k, rfl⟩ := Nat.exists_eq_add_of_lt h
  obtain ⟨further, hfurther, -⟩ := breakEnds_add t m (k + 1)
  rw [lineColumn_rescan t (h.le.trans hn), lineColumn_rescan t hn, Nat.add_assoc, hfurther]
  cases further with
  | nil =>
      have hlast := last_breakEnds_le t m
      rw [List.append_nil]
      exact .inr ⟨rfl, by omega⟩
  | cons e further =>
      left
      simp

/-! ### Lines -/

/-- The characters from the start of a line to its end are the text of the line. -/
lemma slice_eq_lineText (n : Nat) :
    (t.drop ((ofText t).lineStart n)).take ((ofText t).lineEnd n - (ofText t).lineStart n) =
      (ofText t).lineText n := by
  rw [lineEnd, Nat.add_sub_cancel_left, lineText]
  exact (List.prefix_iff_eq_take.mp (List.takeWhile_prefix _)).symm

lemma length_starts : (ofText t).starts.length = (segments t).length := by
  rw [starts_ofText, length_startsFrom]

end LineTable

lemma splitAt_lineFeeds (t : Text) :
    splitAt (· == '\n') (lineFeeds t) = (segments t).map Segment.line := by
  have hunified := splitAt_unified (f := id) (g := lineFeeds) rfl (fun cs => by rw [lineFeeds])
    (fun c cs hlone => ?_) (fun c hc => ?_) t
  · simpa using hunified
  · rw [lineFeeds_cons hlone]
    by_cases hfeed : c = '\n'
    · rw [hfeed]
      rfl
    · simp [isLineBreak, hfeed]
  · rintro rfl
    exact Bool.noConfusion hc

/-- The block structure sees line feeds for all breaks, and the replacement character for NUL. -/
lemma normalize_eq (t : Text) : Markdown.normalize t = (lineFeeds t).map Markdown.visible := by
  induction t using Markdown.normalize.induct with
  | case1 => rfl
  | case2 cs ih =>
      rw [Markdown.normalize, lineFeeds, ih]
      rfl
  | case3 c cs hlone ih =>
      rw [Markdown.normalize.eq_3 _ _ hlone, lineFeeds_cons hlone, List.map_cons, ih,
        Markdown.visible]
      split_ifs <;> simp_all

/-! ### The whole account -/

/-- The position of an offset is what a rescan of the text up to it gives: its octets, the breaks
that end at or before it, and the distance from the last of them. Positions increase strictly, by
their octets as by their lines and columns. The lines of the table are those of the text with line
feeds for all breaks, and so those that the block structure sees. -/
theorem position_rescan (t : Text) :
    (∀ offset ≤ t.length, (LineTable.ofText t).position offset =
        ⟨(utf8 (t.take offset)).length, (breakEnds t offset).length,
          offset - (breakEnds t offset).getLast?.getD 0⟩) ∧
      (∀ m n, m < n → n ≤ t.length →
        let p := (LineTable.ofText t).position m
        let q := (LineTable.ofText t).position n
        p.offset < q.offset ∧ (p.line < q.line ∨ p.line = q.line ∧ p.column < q.column)) ∧
      (splitAt (· == '\n') (lineFeeds t)).length = (LineTable.ofText t).starts.length ∧
      (∀ k < (LineTable.ofText t).starts.length, (splitAt (· == '\n') (lineFeeds t))[k]? =
        some ((t.drop ((LineTable.ofText t).lineStart k)).take
          ((LineTable.ofText t).lineEnd k - (LineTable.ofText t).lineStart k))) ∧
      Markdown.normalize t = (lineFeeds t).map Markdown.visible := by
  refine ⟨fun offset h => ?_, fun m n h hn => ?_, ?_, fun k hk => ?_, normalize_eq t⟩
  · have hlast := last_breakEnds_le t offset
    rw [LineTable.position, LineTable.lineColumn_rescan t h, LineTable.byteOffset_eq, length_utf8]
    dsimp only
    rw [Nat.cast_sub hlast]
  · have hoctets := utf8Size_take_lt h hn
    have hcolumn := LineTable.lineColumn_lt t h hn
    simp only [LineTable.position, LineTable.byteOffset_eq]
    omega
  · rw [splitAt_lineFeeds, List.length_map, LineTable.length_starts]
  · rw [LineTable.length_starts] at hk
    rw [splitAt_lineFeeds, LineTable.slice_eq_lineText, LineTable.lineText_eq, List.getElem?_map,
      List.getElem?_eq_getElem hk]
    rfl

/-- An offset between the two characters of a break, and one behind the breaks of both kinds. -/
theorem position_rescan_mixed_breaks :
    let t := "\u00E9\r\nb\rc\n".toList
    (LineTable.ofText t).position 2 = ⟨3, 0, 2⟩ ∧ (LineTable.ofText t).position 5 = ⟨6, 2, 0⟩ ∧
      (let p := (LineTable.ofText t).position 2
       let q := (LineTable.ofText t).position 3
       p.offset < q.offset ∧ (p.line < q.line ∨ p.line = q.line ∧ p.column < q.column)) ∧
      (splitAt (· == '\n') (lineFeeds t))[2]? = some ['c'] := by
  intro t
  obtain ⟨hposition, hincrease, -, hline, -⟩ := position_rescan t
  exact ⟨(hposition 2 (by decide)).trans (by decide), (hposition 5 (by decide)).trans (by decide),
    hincrease 2 3 (by decide) (by decide), (hline 2 (by decide)).trans (by decide)⟩

end Galley
