import Galley.Proofs.Labels
import Galley.Proofs.Markdown.Order
import Mathlib.Tactic

/-!
Tables stay in one piece when labels are set.

* `lineColumn_anchorOffset`: the anchor of a block is on the first line of the block;
* `withLabels_around`: lines without labels, but above the first of them, stay next to one another;
* `injectAnchors_tables`: no anchor is on a line of a table behind the first one, so the lines of a
  table follow one another in the text with labels.
-/

namespace Galley

open Markdown (Block parse parse_clear parse_first_lt)

/-- The anchor of a block is on the first line of the block. -/
lemma lineColumn_anchorOffset {text : Text} {bs : List Block} {b : Block}
    (hparse : parse text = .ok bs) (hb : b ∈ bs) :
    ((LineTable.ofText text).lineColumn (anchorOffset (LineTable.ofText text) b)).1 = b.first := by
  have hfirst := parse_first_lt hparse b hb
  have hblank : blankCount ((LineTable.ofText text).lineText b.first) ≤
      ((LineTable.ofText text).lineText b.first).length :=
    (List.takeWhile_sublist _).length_le
  rw [anchorOffset]
  split
  · have hstart := LineTable.lineColumn_eq text hfirst (Nat.zero_le _)
    rw [Nat.add_zero] at hstart
    rw [hstart]
  · rw [LineTable.firstNonBlank, LineTable.lineColumn_eq text hfirst hblank]

/-- The anchor of the document is on the first line. -/
lemma line_startMark (text : Text) : startMark.line (LineTable.ofText text) = 0 := by
  have hline := congrArg EditorPosition.line (LineTable.position_zero text)
  exact Int.ofNat_eq_zero.mp hline

/-- Lines stay next to one another if there are no marks on them but on the first one. -/
lemma withLabels_around {table : LineTable} {ms : List Mark} {ss : List Segment} {a k : Nat}
    (h : ∀ m ∈ ms, m.line table ≤ a ∨ a + k ≤ m.line table) :
    ∃ front behind, withLabels table ms 0 ss = front ++ (ss.drop a).take k ++ behind := by
  cases hpart : (ss.drop a).take k with
  | nil => exact ⟨withLabels table ms 0 ss, [], by simp⟩
  | cons s rest =>
      have hsplit : ss = ss.take a ++ (s :: rest ++ (ss.drop a).drop k) := by
        rw [← hpart, List.take_append_drop, List.take_append_drop]
      have htake : (ss.take a).length = a := by
        have hlt : a < ss.length := by
          by_contra hle
          simp [List.drop_eq_nil_of_le (Nat.le_of_not_lt hle)] at hpart
        rw [List.length_take, Nat.min_eq_left hlt.le]
      have hrest : withLabels table ms (a + 1) rest = rest := by
        have hlength := congrArg List.length hpart
        rw [List.length_take, List.length_cons] at hlength
        refine withLabels_of_apart fun m hm => ?_
        have := h m hm
        omega
      refine ⟨withLabels table ms 0 (ss.take a) ++ (marksOn table ms a).map (Mark.labelled table),
        withLabels table ms (a + (s :: rest).length) ((ss.drop a).drop k), ?_⟩
      calc withLabels table ms 0 ss
          = withLabels table ms 0 (ss.take a ++ (s :: rest ++ (ss.drop a).drop k)) := by
            rw [← hsplit]
        _ = withLabels table ms 0 (ss.take a) ++ (withLabels table ms a (s :: rest) ++
              withLabels table ms (a + (s :: rest).length) ((ss.drop a).drop k)) := by
            rw [withLabels_append, withLabels_append, htake, Nat.zero_add]
        _ = _ := by
            rw [withLabels, hrest]
            simp only [List.append_assoc, List.cons_append]

/-- Setting labels keeps tables in one piece, in whatever containers they are. Behind the anchor at
the start of the document, no anchor is inserted on a line of a table but the first one, and the
lines of the table stand one behind the other in the text with labels. -/
theorem injectAnchors_tables {text : Text} {bs : List Block} (hparse : parse text = .ok bs) :
    ∃ out anchors ms, injectAnchors text = .ok (out, anchors) ∧
      anchors = (startMark :: ms).map Mark.anchor ∧
      out = splice text ((startMark :: ms).map (Mark.edit (LineTable.ofText text))) ∧
      ∀ t ∈ bs, ∀ cells, t.shape = .table cells →
        (∀ m ∈ ms, ¬ (t.first < m.line (LineTable.ofText text) ∧
          m.line (LineTable.ofText text) < t.past)) ∧
        ∃ front behind, segments out =
          front ++ ((segments text).drop t.first).take (t.past - t.first) ++ behind := by
  refine ⟨_, _, marksFrom (LineTable.ofText text).position 1
    (anchorOffsets (LineTable.ofText text) bs), injectAnchorsBy_of_parse _ hparse, rfl, rfl, ?_⟩
  intro t ht cells hcells
  have hoff : ∀ m ∈ marksFrom (LineTable.ofText text).position 1
      (anchorOffsets (LineTable.ofText text) bs),
      m.line (LineTable.ofText text) ≤ t.first ∨ t.past ≤ m.line (LineTable.ofText text) := by
    intro m hm
    obtain ⟨b, hb, -, hoffset, -⟩ := mem_anchorOffsets.mp (mem_marksFrom hm).1
    rw [Mark.line, ← hoffset, lineColumn_anchorOffset hparse hb]
    exact parse_clear hparse t ht b hb (by rw [hcells]; rfl)
  refine ⟨fun m hm hinside => ?_, ?_⟩
  · have := hoff m hm
    omega
  · rw [(labelled_splice _ hparse).lines]
    refine withLabels_around fun m hm => ?_
    rcases List.mem_cons.mp hm with rfl | hm
    · exact Or.inl ((line_startMark text).trans_le (Nat.zero_le _))
    · have := hoff m hm
      omega

/-- A table in a list and one in a footnote. The list has a label above the first line of its table;
the lines of both tables stand one behind the other in the text with labels. -/
theorem injectAnchors_tables_contained :
    let text : Text := "x[^a]\n\n- |b|\n  |-|\n  |c|\n\n[^a]: |d|\n    |-|\n    |e|\n".toList
    let listed : Block := ⟨.table ["b".toList, "c".toList], 2, 5, 2⟩
    let noted : Block := ⟨.table ["d".toList, "e".toList], 6, 9, 1⟩
    let line (t : String) : Segment := ⟨t.toList, ['\n']⟩
    parse text = .ok [⟨.paragraph "x[^a]".toList, 0, 1, 0⟩, ⟨.bulletList, 2, 6, 0⟩,
        ⟨.item, 2, 6, 1⟩, listed, noted] ∧
      ∃ out anchors ms, injectAnchors text = .ok (out, anchors) ∧
        anchors = (startMark :: ms).map Mark.anchor ∧
        (∀ m ∈ ms, ¬ (2 < m.line (LineTable.ofText text) ∧ m.line (LineTable.ofText text) < 5)) ∧
        (∃ front behind, segments out =
          front ++ [line "- |b|", line "  |-|", line "  |c|"] ++ behind) ∧
        ∃ front behind, segments out =
          front ++ [line "[^a]: |d|", line "    |-|", line "    |e|"] ++ behind := by
  intro text listed noted line
  have hparse : parse text = .ok [⟨.paragraph "x[^a]".toList, 0, 1, 0⟩, ⟨.bulletList, 2, 6, 0⟩,
      ⟨.item, 2, 6, 1⟩, listed, noted] := by decide +kernel
  obtain ⟨out, anchors, ms, hinject, hanchors, -, htables⟩ := injectAnchors_tables hparse
  obtain ⟨hoff, hlisted⟩ := htables listed (by simp) _ rfl
  obtain ⟨-, hnoted⟩ := htables noted (by simp) _ rfl
  exact ⟨hparse, out, anchors, ms, hinject, hanchors, hoff, hlisted, hnoted⟩

end Galley
