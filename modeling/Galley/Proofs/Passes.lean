import Galley.Proofs.Labels
import Mathlib.Tactic

/-!
Both passes in one step, and one behind the other.

* `exists_frame`: texts with labels at the same offsets are woven of the same pieces, whatever the
  names in the labels are;
* `Relabelled`, `Relocated`: two texts with labels that differ in the names only, and two anchors at
  one offset of a text, one of them placed where it comes from in a source;
* `preprocess_passes`: in one step, both passes do what they do one behind the other, but for the
  names of anchors and for their places, which are those in the source.
-/

namespace Galley

open Markdown (Block parse)

/-! ### Names in labels -/

/-- The texts with labels at some offsets are woven of the same pieces, whatever the names in the
labels are. -/
lemma exists_frame (text : Text) (offsets : List Nat) :
    ∃ frame, frame.length = offsets.length + 1 ∧ ∀ ms : List Mark, ms.map Mark.offset = offsets →
      (∀ m ∈ ms, m.OnLine text) →
      Fits 0 text.length (ms.map (Mark.edit (LineTable.ofText text))) →
      splice text (ms.map (Mark.edit (LineTable.ofText text))) =
        weave frame (ms.map fun m => labelDirective m.id) := by
  obtain ⟨keep, keeps, hgaps⟩ := List.exists_cons_of_length_eq_add_one
    (length_gaps text 0 (offsets.map fun o => ⟨o, o⟩))
  have hkeeps : keeps.length = offsets.length := by
    have hlength := length_gaps text 0 (offsets.map fun o => ⟨o, o⟩)
    rw [hgaps, List.length_cons, List.length_map] at hlength
    exact Nat.succ.inj hlength
  refine ⟨keep :: List.zipWith (· ++ ·) (offsets.map (indentAt (LineTable.ofText text))) keeps, ?_,
    fun ms hoffsets hline hfits => ?_⟩
  · rw [List.length_cons, List.length_zipWith, List.length_map, hkeeps, Nat.min_self]
  · subst hoffsets
    have hstretches : (ms.map (Mark.edit (LineTable.ofText text))).map Edit.stretch =
        (ms.map Mark.offset).map fun o => ⟨o, o⟩ := by
      rw [List.map_map, List.map_map]
      rfl
    have hreplacements : (ms.map (Mark.edit (LineTable.ofText text))).map Edit.replacement =
        List.zipWith (· ++ ·) (ms.map fun m => labelDirective m.id)
          ((ms.map Mark.offset).map (indentAt (LineTable.ofText text))) := by
      rw [List.map_map, List.map_map, List.zipWith_map, List.zipWith_self]
      refine List.map_congr_left fun m hm => ?_
      rw [Function.comp_apply, Mark.edit, (hline m hm).labelMarkup_eq, labelDirective_eq,
        List.append_assoc]
      rfl
    rw [splice_eq_weave hfits, hstretches, hgaps, hreplacements, weave_zipWith_append]
    · rw [hkeeps, List.length_map, List.length_map]
    · rw [List.length_map, List.length_map, List.length_map]

/-- Two texts with labels that are the same but for the names in the labels: the names of the
anchors are the ones in the labels, in order. -/
def Relabelled (out out' : Text) (anchors anchors' : List Anchor) : Prop :=
  ∃ (frame ids ids' : List Text), frame.length = anchors.length + 1 ∧
    anchors'.length = anchors.length ∧
    anchors.map Anchor.id = ids.map CodeText.ofText ∧
    anchors'.map Anchor.id = ids'.map CodeText.ofText ∧
    out = weave frame (ids.map labelDirective) ∧ out' = weave frame (ids'.map labelDirective)

/-- However offsets are located, only the names in the labels depend on it. -/
lemma relabelled_marks {text : Text} {bs : List Block} (hparse : parse text = .ok bs)
    (locate locate' : Nat → EditorPosition) :
    Relabelled
      (splice text
        ((marks (LineTable.ofText text) bs locate).map (Mark.edit (LineTable.ofText text))))
      (splice text
        ((marks (LineTable.ofText text) bs locate').map (Mark.edit (LineTable.ofText text))))
      ((marks (LineTable.ofText text) bs locate).map Mark.anchor)
      ((marks (LineTable.ofText text) bs locate').map Mark.anchor) := by
  have hoffsets : ∀ locate, (marks (LineTable.ofText text) bs locate).map Mark.offset =
      0 :: anchorOffsets (LineTable.ofText text) bs := by
    intro locate
    rw [marks, List.map_cons, map_offset_marksFrom]
    rfl
  have hlength : ∀ locate, (marks (LineTable.ofText text) bs locate).length =
      (0 :: anchorOffsets (LineTable.ofText text) bs).length := by
    intro locate
    rw [← hoffsets locate, List.length_map]
  obtain ⟨frame, hframe, hweave⟩ :=
    exists_frame text (0 :: anchorOffsets (LineTable.ofText text) bs)
  refine ⟨frame, (marks (LineTable.ofText text) bs locate).map Mark.id,
    (marks (LineTable.ofText text) bs locate').map Mark.id, ?_, ?_, ?_, ?_, ?_, ?_⟩
  · rw [hframe, List.length_map, hlength]
  · rw [List.length_map, List.length_map, hlength, hlength]
  · rw [List.map_map, List.map_map]
    rfl
  · rw [List.map_map, List.map_map]
    rfl
  · rw [List.map_map]
    exact hweave _ (hoffsets locate) (marks_onLine locate hparse) (marks_fit locate hparse)
  · rw [List.map_map]
    exact hweave _ (hoffsets locate') (marks_onLine locate' hparse) (marks_fit locate' hparse)

/-! ### Places in the source -/

/-- The anchor `b` stands in the source where the one offset comes from that has the position of the
anchor `a` in the text after the edits. -/
def Relocated (source : Text) (edits : List Edit) (text : Text) (a b : Anchor) : Prop :=
  ∃ t ≤ text.length, a.editor = (LineTable.ofText text).position t ∧
    (∀ u ≤ text.length, a.editor = (LineTable.ofText text).position u → u = t) ∧
    ∃ p ≤ source.length, sourceOffset edits t = p ∧
      b.editor = (LineTable.ofText source).position p

/-- Marks at the same offsets, located in two ways. -/
lemma marksFrom_forall₂ (locate locate' : Nat → EditorPosition) (count : Nat)
    (offsets : List Nat) :
    List.Forall₂
      (fun m m' => ∃ o ∈ offsets, m.editor = locate o ∧ m'.editor = locate' o)
      (marksFrom locate count offsets) (marksFrom locate' count offsets) := by
  induction offsets generalizing count with
  | nil => exact .nil
  | cons offset offsets ih =>
      refine .cons ⟨offset, List.mem_cons_self, rfl, rfl⟩ ((ih (count + 1)).imp ?_)
      rintro m m' ⟨o, ho, hm, hm'⟩
      exact ⟨o, List.mem_cons_of_mem _ ho, hm, hm'⟩

/-- With no edits, an offset is located where it is. -/
lemma locateSource_nil (text : Text) :
    locateSource text [] = (LineTable.ofText text).position := by
  funext o
  have hsource : sourceOffset [] o = o := Int.sub_zero _
  rw [locateSource, hsource, Int.toNat_natCast]

/-- The offsets of the text after the edits are located where they come from. -/
lemma relocated_position {source : Text} {edits : List Edit} (h : Fits 0 source.length edits)
    {a b : Anchor} {o : Nat} (ho : o ≤ (splice source edits).length)
    (ha : a.editor = (LineTable.ofText (splice source edits)).position o)
    (hb : b.editor = locateSource source edits o) :
    Relocated source edits (splice source edits) a b := by
  have hfits : Fits 0 source.length (orderEdits edits) := by rwa [h.orderEdits_eq]
  have hnonneg := sourceOffset_nonneg hfits (Int.natCast_nonneg o)
  have hend := sourceOffset_length hfits
  have hmono : sourceOffset edits o ≤ sourceOffset edits (splice source edits).length :=
    sourceOffsetAux_mono hfits (Int.ofNat_le.mpr ho)
  refine ⟨o, ho, ha, fun u hu hposition => ?_, (sourceOffset edits o).toNat, ?_, ?_, hb⟩
  · exact LineTable.position_inj _ hu ho (hposition.symm.trans ha)
  · omega
  · exact (Int.toNat_of_nonneg hnonneg).symm

/-- In one step, both passes do what they do one behind the other: the same diagrams, as many
anchors, and the same text but for the names in the labels. Behind the one at the start, each anchor
stands in the source where the offset comes from at which the second pass alone has placed it. With
no diagrams there is no difference at all. -/
theorem preprocess_passes {text middle labelled : Text} {diagrams : List Diagram}
    {anchors : List Anchor} (hextract : extractDiagrams text = .ok (middle, diagrams))
    (hinject : injectAnchors middle = .ok (labelled, anchors)) :
    ∃ found r, diagramEdits text = .ok found ∧ preprocess text = .ok r ∧ r.diagrams = diagrams ∧
      Relabelled labelled r.markdown anchors r.anchors ∧ r.anchors.head? = anchors.head? ∧
      List.Forall₂ (Relocated text (found.map Prod.fst) middle) anchors.tail r.anchors.tail ∧
      (diagrams = [] → middle = text ∧ r.markdown = labelled ∧ r.anchors = anchors) := by
  obtain ⟨found, hfound, rfl, rfl⟩ := extractDiagrams_eq_ok hextract
  obtain ⟨bs, hparse, rfl, rfl⟩ := injectAnchorsBy_eq_ok hinject
  have hpreprocess : preprocess text = .ok
      ⟨splice (splice text (found.map Prod.fst))
          ((marks (LineTable.ofText (splice text (found.map Prod.fst))) bs
            (locateSource text (found.map Prod.fst))).map
              (Mark.edit (LineTable.ofText (splice text (found.map Prod.fst))))),
        (marks (LineTable.ofText (splice text (found.map Prod.fst))) bs
          (locateSource text (found.map Prod.fst))).map Mark.anchor,
        found.map Prod.snd⟩ := by
    rw [preprocess, hfound]
    dsimp only [bind, Except.bind]
    rw [injectAnchorsBy_of_parse _ hparse]
    rfl
  refine ⟨found, _, hfound, hpreprocess, rfl, relabelled_marks hparse _ _, rfl, ?_, fun hnone => ?_⟩
  · have hmarks := marksFrom_forall₂
      (LineTable.ofText (splice text (found.map Prod.fst))).position
      (locateSource text (found.map Prod.fst)) 1
      (anchorOffsets (LineTable.ofText (splice text (found.map Prod.fst))) bs)
    refine List.forall₂_map_left_iff.mpr (List.forall₂_map_right_iff.mpr (hmarks.imp ?_))
    rintro m m' ⟨o, ho, hm, hm'⟩
    exact relocated_position (diagramEdits_fit hfound) (anchorOffsets_le ho) hm hm'
  · obtain rfl := List.map_eq_nil_iff.mp hnone
    dsimp only
    rw [List.map_nil, locateSource_nil]
    exact ⟨rfl, rfl, rfl⟩

/-- A diagram between paragraphs. In one step, the anchors behind it stand where they are in the
source, and their names tell so. -/
theorem preprocess_passes_paragraphs :
    let text : Text := "a\n\n~~~tikz\nx\n~~~\n\nb\n".toList
    let middle := "a\n\n".toList ++ diagramDirective "x\n".toList {} ++ "\nb\n".toList
    let labelled := weave
      [[], [], "a\n\n".toList ++ diagramDirective "x\n".toList {} ++ "\n".toList, "b\n".toList]
      (["tf-doc-start".toList, "tf-0-1".toList, "tf-51-2".toList].map labelDirective)
    let anchors : List Anchor := [⟨CodeText.ofText "tf-doc-start".toList, ⟨0, 0, 0⟩, none⟩,
      ⟨CodeText.ofText "tf-0-1".toList, ⟨0, 0, 0⟩, none⟩,
      ⟨CodeText.ofText "tf-51-2".toList, ⟨51, 4, 0⟩, none⟩]
    extractDiagrams text = .ok (middle, [⟨"tikz-0".toList, "x\n".toList, {}⟩]) ∧
      injectAnchors middle = .ok (labelled, anchors) ∧
      ∃ r, preprocess text = .ok r ∧
        r.anchors.map Anchor.editor = [⟨0, 0, 0⟩, ⟨0, 0, 0⟩, ⟨18, 6, 0⟩] ∧
        Relabelled labelled r.markdown anchors r.anchors := by
  intro text middle labelled anchors
  have hextract : extractDiagrams text = .ok (middle, [⟨"tikz-0".toList, "x\n".toList, {}⟩]) := by
    decide +kernel
  have hinject : injectAnchors middle = .ok (labelled, anchors) := by decide +kernel
  have hplaces : (preprocess text).toOption.map (fun r => r.anchors.map Anchor.editor) =
      some [⟨0, 0, 0⟩, ⟨0, 0, 0⟩, ⟨18, 6, 0⟩] := by decide +kernel
  obtain ⟨found, r, -, hpreprocess, -, hrelabelled, -⟩ := preprocess_passes hextract hinject
  rw [hpreprocess] at hplaces
  exact ⟨hextract, hinject, r, hpreprocess, Option.some.inj hplaces, hrelabelled⟩

end Galley
