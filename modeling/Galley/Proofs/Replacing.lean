import Galley.Proofs.Directives
import Galley.Proofs.Markdown.FirstLines
import Galley.Proofs.Weave
import Mathlib.Tactic

/-!
Taking diagrams out of a text touches their fences only.

* `takenFences`, `diagramEditsAux_taken`: the fences that are taken, each with its diagram and the
  edit that replaces it;
* `opening_on_line`: the mark of a fence stands in the first line of the fence;
* `Covers`: a stretch from the mark of a fence to the end of its last line;
* `Replaced`: a text with other pieces in place of some stretches, and all else kept in order;
* `extractDiagrams_replaced`: the text without diagrams is the text with directives in place of the
  fences that are taken.
-/

namespace Galley

open Markdown (Block parse parse_first_lt)

/-! ### The fences that are taken -/

/-- The fences that are taken for diagrams: the info string found behind the mark is that of a
diagram. -/
def takenFences (table : LineTable) (fs : List FenceBlock) : List FenceBlock :=
  fs.filter fun f => (Fence.diagramOptions? (f.opening table).2).isSome

/-- Every fence that is taken has an edit and a diagram, in the same order, and nothing else has. -/
lemma diagramEditsAux_taken (table : LineTable) (count : Nat) (fs : List FenceBlock) :
    List.Forall₂ (fun f a => a.1 = diagramEdit table f a.2 ∧ a.2.source = f.body)
      (takenFences table fs) (diagramEditsAux table count fs) := by
  induction fs generalizing count with
  | nil => exact .nil
  | cons f fs ih =>
      rw [takenFences, List.filter_cons, ← takenFences, diagramEditsAux]
      cases hoptions : Fence.diagramOptions? (f.opening table).2 with
      | none => exact ih count
      | some options => exact .cons ⟨rfl, rfl⟩ (ih (count + 1))

lemma first_lt_of_mem_fences {text : Text} {bs : List Block} {f : FenceBlock}
    (hparse : parse text = .ok bs) (hf : f ∈ fences bs) : f.first < (segments text).length := by
  have hmem := (orderBy_perm _ _).mem_iff.mp hf
  obtain ⟨b, hb, hbf⟩ := List.mem_filterMap.mp hmem
  rw [ofBlock_eq_some hbf] at hb
  exact parse_first_lt hparse _ hb

/-- The mark of a fence is found in the first line of the fence, in front of the end of the line. -/
lemma opening_on_line {text : Text} {bs : List Block} {f : FenceBlock}
    (hparse : parse text = .ok bs) (hf : f ∈ fences bs) :
    ((LineTable.ofText text).lineColumn (f.opening (LineTable.ofText text)).1).1 = f.first ∧
      (f.opening (LineTable.ofText text)).1 < (LineTable.ofText text).lineStart f.past := by
  obtain ⟨n, c, hopening, hget, -, -⟩ := opening_in_front (fence_remainder hparse hf)
  have hn := (List.getElem?_eq_some_iff.mp hget).1
  rw [hopening]
  refine ⟨?_, ?_⟩
  · rw [LineTable.lineColumn_eq text (first_lt_of_mem_fences hparse hf) hn.le]
  · have hline := LineTable.lineText_le text f.first
    have hpast : (LineTable.ofText text).lineStart (f.first + 1) ≤
        (LineTable.ofText text).lineStart f.past :=
      LineTable.lineStart_mono text ((fences_pairwise hparse).2 f hf)
    omega

/-! ### Stretches that are replaced -/

/-- The stretch begins on the first line of the fence and ends where the line behind the fence
starts, or at the end of the text. -/
def Covers (table : LineTable) (f : FenceBlock) (s : Stretch) : Prop :=
  (table.lineColumn s.start).1 = f.first ∧ s.stop = table.lineStart f.past

/-- The text `out` is the text with a piece of `fills` in place of each of the stretches, which are
not empty and lie one behind the other. All that lies between them is kept in order. -/
structure Replaced (text out : Text) (stretches : List Stretch) (fills : List Text) : Prop where
  count : stretches.length = fills.length
  inside : ∀ s ∈ stretches, s.start < s.stop ∧ s.stop ≤ text.length
  apart : stretches.Pairwise fun r s => r.stop ≤ s.start
  before : text = weave (gaps text 0 stretches) (stretches.map (Stretch.of text))
  after : out = weave (gaps text 0 stretches) fills
  length : (out.length : Int) = text.length +
    ((stretches.zip fills).map fun (s, fill) => (fill.length : Int) - (s.stop - s.start)).sum

/-- Splicing edits that fit, none of them an insertion, replaces their stretches. -/
lemma replaced_splice {text : Text} {edits : List Edit} (h : Fits 0 text.length edits)
    (hfilled : ∀ e ∈ edits, e.start < e.stop) :
    Replaced text (splice text edits) (edits.map Edit.stretch) (edits.map Edit.replacement) where
  count := by rw [List.length_map, List.length_map]
  inside s hs := by
    obtain ⟨-, hle, hhigh⟩ := h.stretches.2 s hs
    obtain ⟨e, he, rfl⟩ := List.mem_map.mp hs
    have := hfilled e he
    have := h.le_start e he
    dsimp only [Edit.stretch] at hle hhigh ⊢
    omega
  apart := h.stretches.1
  before := by
    have hweave := weave_stretches h
    rw [List.map_map]
    exact hweave.symm
  after := splice_eq_weave h
  length := by
    have hgrowth : ∀ e ∈ edits, e.growth =
        (e.replacement.length : Int) - ((e.stretch.stop : Int) - e.stretch.start) := by
      intro e he
      have := h.le_start e he
      have := hfilled e he
      rw [Edit.growth, Edit.stretch]
      dsimp only
      omega
    rw [length_splice h, List.map_congr_left hgrowth, List.zip_map', List.map_map]
    rfl

/-- Taking diagrams out touches their fences only. As many stretches as there are diagrams lie one
behind the other in the text, each from the mark on the first line of a fence that is taken to the
start of the line behind the fence. The text without diagrams is the text with the directives of the
diagrams in place of these stretches, and the lengths add up. -/
theorem extractDiagrams_replaced {text : Text} {bs : List Block} (hparse : parse text = .ok bs) :
    ∃ out diagrams stretches, extractDiagrams text = .ok (out, diagrams) ∧
      List.Forall₂ (fun (f : FenceBlock) (d : Diagram) => d.source = f.body)
        (takenFences (LineTable.ofText text) (fences bs)) diagrams ∧
      List.Forall₂ (Covers (LineTable.ofText text))
        (takenFences (LineTable.ofText text) (fences bs)) stretches ∧
      Replaced text out stretches (diagrams.map fun d => diagramDirective d.source d.options) := by
  have hfound := diagramEdits_of_parse hparse
  have htaken := diagramEditsAux_taken (LineTable.ofText text) 0 (fences bs)
  have hedits : ∀ a ∈ diagramEditsAux (LineTable.ofText text) 0 (fences bs),
      a.1.start < a.1.stop ∧ a.1.replacement = diagramDirective a.2.source a.2.options := by
    intro a ha
    obtain ⟨f, hf, heq⟩ := exists_fence ha
    rw [heq]
    exact ⟨Int.ofNat_lt.mpr (opening_on_line hparse hf).2, rfl⟩
  generalize diagramEditsAux (LineTable.ofText text) 0 (fences bs) = found
    at hfound htaken hedits
  have hreplaced := replaced_splice (diagramEdits_fit hfound) fun e he => by
    obtain ⟨a, ha, rfl⟩ := List.mem_map.mp he
    exact (hedits a ha).1
  have hfills : (found.map Prod.fst).map Edit.replacement =
      (found.map Prod.snd).map fun d => diagramDirective d.source d.options := by
    rw [List.map_map, List.map_map]
    exact List.map_congr_left fun a ha => (hedits a ha).2
  rw [hfills] at hreplaced
  refine ⟨_, _, _, extractDiagrams_of_edits hfound, ?_, ?_, hreplaced⟩
  · exact List.forall₂_map_right_iff.mpr (htaken.imp fun _ _ h => h.2)
  · rw [List.map_map]
    have hfences : ∀ f ∈ takenFences (LineTable.ofText text) (fences bs), f ∈ fences bs :=
      fun f hf => List.mem_of_mem_filter hf
    have hcovers := (List.forall₂_and_left _ _).mpr ⟨hfences, htaken⟩
    refine List.forall₂_map_right_iff.mpr (hcovers.imp fun f a hfa => ?_)
    obtain ⟨hf, heq, -⟩ := hfa
    rw [Function.comp_apply, heq]
    exact ⟨(opening_on_line hparse hf).1, rfl⟩

/-- A diagram in a quote, a fence that is no diagram, and a diagram in a list that ends with the
text, its fence not closed. -/
theorem extractDiagrams_replaced_containers :
    let text : Text := "> ~~~tikz\n> x\n\n~~~c\n~~~\n\n- ```tikz\n  y".toList
    let bs : List Block := [⟨.quote, 0, 2, 0⟩,
      ⟨.fence "~~~".toList "tikz".toList "x\n".toList, 0, 2, 1⟩,
      ⟨.fence "~~~".toList "c".toList [], 3, 5, 0⟩, ⟨.bulletList, 6, 8, 0⟩, ⟨.item, 6, 8, 1⟩,
      ⟨.fence "```".toList "tikz".toList "y".toList, 6, 8, 2⟩]
    let fills := [diagramDirective "x\n".toList {}, diagramDirective "y".toList {}]
    let out := weave ["> ".toList, "\n~~~c\n~~~\n\n- ".toList, []] fills
    parse text = .ok bs ∧
      ∃ diagrams stretches, extractDiagrams text = .ok (out, diagrams) ∧
        Replaced text out stretches fills := by
  intro text bs fills out
  have hparse : parse text = .ok bs := by decide +kernel
  have hextract : extractDiagrams text = .ok (out,
      [⟨"tikz-0".toList, "x\n".toList, {}⟩, ⟨"tikz-1".toList, "y".toList, {}⟩]) := by
    decide +kernel
  obtain ⟨out', diagrams, stretches, hresult, -, -, hreplaced⟩ := extractDiagrams_replaced hparse
  obtain ⟨rfl, rfl⟩ := Prod.mk.inj (Except.ok.inj (hresult.symm.trans hextract))
  exact ⟨hparse, _, stretches, hextract, hreplaced⟩

end Galley
