import Galley.Preprocess
import Galley.Proofs.LineTable
import Galley.Proofs.Markdown.Notes
import Galley.Proofs.Outcomes
import Galley.Proofs.Pieces
import Galley.Proofs.Splice
import Mathlib.Tactic

/-!
The fences of a document, and the edits that replace those that are diagrams.

* `fences_pairwise`: every fence ends before the next one begins;
* `opening_bounds`: the mark that opens a fence is found on its first line;
* `diagramEdits_fit`: so the edits of diagrams lie in the text, one behind the other.
-/

namespace Galley

open Markdown (Block Event Spans blocks blocksOf blocksOf_subperm blockEvents_spans
  documentEvents leaves mem_blocks parse)

/-! ### Fences -/

lemma ofBlock_eq_some {b : Block} {f : FenceBlock} (h : FenceBlock.ofBlock? b = some f) :
    b = ⟨.fence f.mark f.info f.body, f.first, f.past, b.depth⟩ := by
  obtain ⟨shape, first, past, depth⟩ := b
  cases shape <;> simp [FenceBlock.ofBlock?] at h
  subst h
  rfl

/-- The fences of a run end before the next ones begin. -/
lemma filterMap_ofBlock_pairwise {low high : Nat} {events : List Event}
    (h : Spans low high events) :
    ((blocks events).filterMap FenceBlock.ofBlock?).Pairwise fun f g => f.past ≤ g.first := by
  have hleaves : (blocks events).filterMap FenceBlock.ofBlock? =
      (leaves events).filterMap FenceBlock.ofBlock? := by
    rw [leaves, List.filterMap_filter]
    refine List.filterMap_congr fun b _ => ?_
    obtain ⟨shape, first, past, depth⟩ := b
    cases shape <;> rfl
  rw [hleaves]
  refine h.pairwise.filterMap _ fun b b' hbb' f hf g hg => ?_
  rw [ofBlock_eq_some hf, ofBlock_eq_some hg] at hbb'
  exact hbb'

/-- A fence of a run is not empty. -/
lemma lt_of_mem_filterMap_ofBlock {low high : Nat} {events : List Event} {f : FenceBlock}
    (h : Spans low high events) (hf : f ∈ (blocks events).filterMap FenceBlock.ofBlock?) :
    f.first < f.past := by
  obtain ⟨b, hb, hbf⟩ := List.mem_filterMap.mp hf
  rw [ofBlock_eq_some hbf] at hb
  exact (h.bounds (mem_blocks.mp hb) rfl).2.1

/-- The fences that come out are some of those in the events, each at most once. -/
lemma filterMap_ofBlock_subperm (events : List Event) :
    ((blocksOf events).filterMap FenceBlock.ofBlock?).Subperm
      ((blocks events).filterMap FenceBlock.ofBlock?) := by
  obtain ⟨bs, hperm, hsub⟩ := blocksOf_subperm events
  exact ⟨_, hperm.filterMap _, hsub.filterMap _⟩

lemma blocksOf_of_parse {text : Text} {bs : List Block} (h : parse text = .ok bs) :
    blocksOf (documentEvents text) = bs := by
  rw [parse] at h
  split_ifs at h
  exact Except.ok.inj h

lemma fences_subperm (events : List Event) :
    (fences (blocksOf events)).Subperm ((blocks events).filterMap FenceBlock.ofBlock?) :=
  (orderBy_perm _ _).subperm.trans (filterMap_ofBlock_subperm events)

/-- A fence of a document is one of its events. -/
lemma event_of_mem_fences {text : Text} {bs : List Block} {f : FenceBlock}
    (h : parse text = .ok bs) (hf : f ∈ fences bs) :
    ∃ depth, .block ⟨.fence f.mark f.info f.body, f.first, f.past, depth⟩ ∈
      documentEvents text := by
  obtain ⟨b, hb, hbf⟩ := List.mem_filterMap.mp
    ((fences_subperm (documentEvents text)).subset (blocksOf_of_parse h ▸ hf))
  rw [ofBlock_eq_some hbf] at hb
  exact ⟨b.depth, mem_blocks.mp hb⟩

/-- Every fence of a document ends before the next one begins, and none is empty. -/
theorem fences_pairwise {text : Text} {bs : List Block} (h : parse text = .ok bs) :
    (fences bs).Pairwise (fun f g => f.past ≤ g.first) ∧ ∀ f ∈ fences bs, f.first < f.past := by
  obtain ⟨past, hspans⟩ : ∃ past, Spans 0 past (documentEvents text) := blockEvents_spans _
  obtain rfl := blocksOf_of_parse h
  have hsubperm := fences_subperm (documentEvents text)
  have hlt : ∀ f ∈ fences (blocksOf (documentEvents text)), f.first < f.past := fun f hf =>
    lt_of_mem_filterMap_ofBlock hspans (hsubperm.subset hf)
  refine ⟨?_, hlt⟩
  -- in whatever order, two fences do not overlap
  have hapart : (fences (blocksOf (documentEvents text))).Pairwise
      fun f g => f.past ≤ g.first ∨ g.past ≤ f.first := by
    obtain ⟨fs, hperm, hsub⟩ := hsubperm
    refine (hperm.pairwise_iff fun h => Or.symm h).mp ?_
    exact ((filterMap_ofBlock_pairwise hspans).imp fun h => Or.inl h).sublist hsub
  have hsorted : (fences (blocksOf (documentEvents text))).Pairwise
      fun f g => f.first ≤ g.first := orderBy_key_pairwise FenceBlock.first _
  refine (hsorted.and hapart).imp_of_mem fun {f g} _ hg hfg => ?_
  obtain ⟨hle, hdisjoint⟩ := hfg
  have hglt := hlt g hg
  omega

/-! ### Edits of diagrams -/

/-- The mark of a fence stands in its first line. -/
lemma opening_bounds (text : Text) (f : FenceBlock) :
    (LineTable.ofText text).lineStart f.first ≤ (f.opening (LineTable.ofText text)).1 ∧
      (f.opening (LineTable.ofText text)).1 ≤ (LineTable.ofText text).lineStart (f.first + 1) := by
  have hline := LineTable.lineText_le text f.first
  rw [FenceBlock.opening]
  split
  · rename_i n hn
    split_ifs at hn
    have := firstOffset_le hn
    dsimp only
    omega
  · have hblank : blankCount ((LineTable.ofText text).lineText f.first) ≤
        ((LineTable.ofText text).lineText f.first).length :=
      (List.takeWhile_sublist _).length_le
    rw [LineTable.firstNonBlank]
    dsimp only
    omega

/-- The edits of diagrams replace fences. -/
lemma exists_fence {table : LineTable} {count : Nat} {fs : List FenceBlock} {a : Edit × Diagram}
    (h : a ∈ diagramEditsAux table count fs) : ∃ f ∈ fs, a.1 = diagramEdit table f a.2 := by
  induction fs generalizing count with
  | nil => simp [diagramEditsAux] at h
  | cons f fs ih =>
      rw [diagramEditsAux] at h
      split at h
      · obtain ⟨g, hg, heq⟩ := ih h
        exact ⟨g, List.mem_cons_of_mem _ hg, heq⟩
      · rcases List.mem_cons.mp h with rfl | h
        · exact ⟨f, List.mem_cons_self, rfl⟩
        · obtain ⟨g, hg, heq⟩ := ih h
          exact ⟨g, List.mem_cons_of_mem _ hg, heq⟩

/-- The edits of diagrams among fences behind an offset lie behind that offset. -/
lemma diagramEditsAux_fits (text : Text) {low count : Nat} {fs : List FenceBlock}
    (hlow : ∀ f ∈ fs, low ≤ (LineTable.ofText text).lineStart f.first) (hle : low ≤ text.length)
    (hlt : ∀ f ∈ fs, f.first < f.past) (h : fs.Pairwise fun f g => f.past ≤ g.first) :
    Fits low text.length
      ((diagramEditsAux (LineTable.ofText text) count fs).map Prod.fst) := by
  induction fs generalizing low count with
  | nil => exact Int.ofNat_le.mpr hle
  | cons f fs ih =>
      obtain ⟨hf, hfs⟩ := List.pairwise_cons.mp h
      rw [diagramEditsAux]
      split
      · exact ih (fun g hg => hlow g (List.mem_cons_of_mem _ hg)) hle
          (fun g hg => hlt g (List.mem_cons_of_mem _ hg)) hfs
      · have hopening := opening_bounds text f
        have hfirst := hlow f List.mem_cons_self
        have hstop := LineTable.lineStart_mono text (hlt f List.mem_cons_self)
        refine ⟨?_, ?_, ih (fun g hg => LineTable.lineStart_mono text (hf g hg))
          (LineTable.lineStart_le text f.past) (fun g hg => hlt g (List.mem_cons_of_mem _ hg)) hfs⟩
        · exact Int.ofNat_le.mpr (hfirst.trans hopening.1)
        · exact Int.ofNat_le.mpr (hopening.2.trans hstop)

lemma diagramEdits_eq_ok {text : Text} {found : List (Edit × Diagram)}
    (h : diagramEdits text = .ok found) : ∃ bs, parse text = .ok bs ∧
      found = diagramEditsAux (LineTable.ofText text) 0 (fences bs) := by
  rw [diagramEdits] at h
  obtain ⟨bs, hparse, hpure⟩ := exists_of_bind_eq_ok h
  exact ⟨bs, hparse, (Except.ok.inj hpure).symm⟩

lemma diagramEdits_of_parse {text : Text} {bs : List Block} (h : parse text = .ok bs) :
    diagramEdits text = .ok (diagramEditsAux (LineTable.ofText text) 0 (fences bs)) := by
  rw [diagramEdits, h]
  rfl

lemma extractDiagrams_eq_ok {text out : Text} {diagrams : List Diagram}
    (h : extractDiagrams text = .ok (out, diagrams)) : ∃ found, diagramEdits text = .ok found ∧
      out = splice text (found.map Prod.fst) ∧ diagrams = found.map Prod.snd := by
  rw [extractDiagrams] at h
  obtain ⟨found, hfound, hpure⟩ := exists_of_bind_eq_ok h
  obtain ⟨rfl, rfl⟩ := Prod.mk.inj (Except.ok.inj hpure)
  exact ⟨found, hfound, rfl, rfl⟩

lemma extractDiagrams_of_edits {text : Text} {found : List (Edit × Diagram)}
    (h : diagramEdits text = .ok found) :
    extractDiagrams text = .ok (splice text (found.map Prod.fst), found.map Prod.snd) := by
  rw [extractDiagrams, h]
  rfl

/-- The edits of diagrams lie in the text, one behind the other. -/
theorem diagramEdits_fit {text : Text} {found : List (Edit × Diagram)}
    (h : diagramEdits text = .ok found) : Fits 0 text.length (found.map Prod.fst) := by
  obtain ⟨bs, hparse, rfl⟩ := diagramEdits_eq_ok h
  obtain ⟨hpairwise, hlt⟩ := fences_pairwise hparse
  exact diagramEditsAux_fits text (fun _ _ => Nat.zero_le _) (Nat.zero_le _) hlt hpairwise

end Galley
