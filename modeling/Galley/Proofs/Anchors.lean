import Galley.Proofs.Fences
import Galley.SourceMap.Basic
import Mathlib.Data.List.TakeWhile
import Mathlib.Tactic

/-!
The anchors of a document are a map of it, in order.

* `marks_id_nodup`: no name is given twice, since the number behind the last hyphen tells the names
  apart;
* `mem_anchorOffsets`, `anchorOffsets_strict`: the offsets of anchors are those of blocks that take
  one, each once and in order;
* `nearestToOffset_eq`: among anchors in order, looking up stops at the right one;
* `preprocess_anchors`: the anchors of both passes are a map of the authored text;
* `injectAnchors_loses_fence`: a label may end the list that a block is in.
-/

namespace Galley

/-! ### Names -/

/-- The digits behind the last hyphen. -/
def idNumber (id : Text) : Text := (id.reverse.takeWhile (· != '-')).reverse

/-- The number of a name is what stands behind its last hyphen. -/
lemma idNumber_append (front : Text) (n : Nat) :
    idNumber (front ++ '-' :: Text.ofNat n) = Text.ofNat n := by
  have hdigits : ∀ c ∈ (Text.ofNat n).reverse, (c != '-') = true := by
    intro c hc
    have hdigit := ofNat_digits (List.mem_reverse.mp hc)
    have hne : c ≠ '-' := by
      rintro rfl
      simp at hdigit
    simpa using hne
  rw [idNumber, List.reverse_append, List.reverse_cons, List.append_assoc,
    List.takeWhile_append_of_pos hdigits]
  simp

/-- A mark is at one of the offsets, it stands where that is located, and its name tells the octet
and a number. -/
lemma mem_marksFrom {locate : Nat → EditorPosition} {count : Nat} {offsets : List Nat} {m : Mark}
    (h : m ∈ marksFrom locate count offsets) :
    m.offset ∈ offsets ∧ m.editor = locate m.offset ∧ ∃ n, count ≤ n ∧
      m.id = "tf-".toList ++ Text.ofInt m.editor.offset ++ '-' :: Text.ofNat n := by
  induction offsets generalizing count with
  | nil => simp [marksFrom] at h
  | cons offset offsets ih =>
      rw [marksFrom] at h
      rcases List.mem_cons.mp h with rfl | h
      · exact ⟨List.mem_cons_self, rfl, count, le_rfl, rfl⟩
      · obtain ⟨hmem, heditor, n, hn, hid⟩ := ih h
        exact ⟨List.mem_cons_of_mem _ hmem, heditor, n, (Nat.le_succ count).trans hn, hid⟩

/-- The names of marks end with their numbers. -/
lemma marksFrom_idNumber {locate : Nat → EditorPosition} {count : Nat} {offsets : List Nat}
    {m : Mark} (h : m ∈ marksFrom locate count offsets) :
    ∃ n, count ≤ n ∧ idNumber m.id = Text.ofNat n := by
  obtain ⟨-, -, n, hn, hid⟩ := mem_marksFrom h
  exact ⟨n, hn, by rw [hid, idNumber_append]⟩

lemma map_offset_marksFrom (locate : Nat → EditorPosition) (count : Nat) (offsets : List Nat) :
    (marksFrom locate count offsets).map Mark.offset = offsets := by
  induction offsets generalizing count with
  | nil => rfl
  | cons offset offsets ih => rw [marksFrom, List.map_cons, ih]

lemma marksFrom_id_nodup (locate : Nat → EditorPosition) (count : Nat) (offsets : List Nat) :
    ((marksFrom locate count offsets).map Mark.id).Nodup := by
  induction offsets generalizing count with
  | nil => exact List.nodup_nil
  | cons offset offsets ih =>
      rw [marksFrom, List.map_cons]
      refine List.nodup_cons.mpr ⟨fun hmem => ?_, ih (count + 1)⟩
      obtain ⟨m, hm, hid⟩ := List.mem_map.mp hmem
      obtain ⟨n, hn, hnumber⟩ := marksFrom_idNumber hm
      rw [hid, idNumber_append] at hnumber
      have := ofNat_injective hnumber
      omega

/-- No name is given twice. -/
lemma marks_id_nodup (table : LineTable) (bs : List Markdown.Block)
    (locate : Nat → EditorPosition) : ((marks table bs locate).map Mark.id).Nodup := by
  rw [marks, List.map_cons]
  refine List.nodup_cons.mpr ⟨fun hmem => ?_, marksFrom_id_nodup _ _ _⟩
  obtain ⟨m, hm, hid⟩ := List.mem_map.mp hmem
  obtain ⟨n, -, hnumber⟩ := marksFrom_idNumber hm
  have hstart : idNumber m.id = "start".toList := by
    rw [hid]
    decide
  have hdigit := ofNat_digits (c := 's') (n := n) (by rw [← hnumber, hstart]; decide)
  simp at hdigit

lemma ofText_injective : Function.Injective CodeText.ofText := by
  intro s t hst
  have htext := congrArg CodeText.toText? hst
  rw [CodeText.toText?_ofText, CodeText.toText?_ofText] at htext
  exact Option.some.inj htext

/-! ### Offsets -/

lemma mem_dropRepeats {ns : List Nat} {n : Nat} : n ∈ dropRepeats ns ↔ n ∈ ns := by
  induction ns using dropRepeats.induct with
  | case1 => rfl
  | case2 m => rfl
  | case3 n ns ih => simp [dropRepeats, ih]
  | case4 m n ns hne ih => simp [dropRepeats, hne, ih]

/-- Of offsets in order, those that are left follow strictly. -/
lemma dropRepeats_pairwise {ns : List Nat} (h : ns.Pairwise (· ≤ ·)) :
    (dropRepeats ns).Pairwise (· < ·) := by
  induction ns using dropRepeats.induct with
  | case1 => exact List.Pairwise.nil
  | case2 m => exact List.pairwise_singleton _ _
  | case3 n ns ih =>
      rw [dropRepeats, if_pos rfl]
      exact ih (List.pairwise_cons.mp h).2
  | case4 m n ns hne ih =>
      obtain ⟨hm, hns⟩ := List.pairwise_cons.mp h
      rw [dropRepeats, if_neg hne]
      refine List.pairwise_cons.mpr ⟨fun k hk => ?_, ih hns⟩
      have hmn := hm n List.mem_cons_self
      have hnk : n ≤ k := by
        rcases List.mem_cons.mp (mem_dropRepeats.mp hk) with rfl | hk
        · exact le_rfl
        · exact (List.pairwise_cons.mp hns).1 k hk
      omega

/-- The offsets of anchors are those of blocks that take one, off quoted lines. -/
lemma mem_anchorOffsets {table : LineTable} {bs : List Markdown.Block} {o : Nat} :
    o ∈ anchorOffsets table bs ↔ ∃ b ∈ bs, takesAnchor b.shape = true ∧
      anchorOffset table b = o ∧ isQuotedLine table o = false := by
  rw [anchorOffsets, mem_dropRepeats, (orderBy_perm _ _).mem_iff, List.mem_filter]
  simp only [List.mem_map, List.mem_filter, Bool.not_eq_eq_eq_not, Bool.not_true]
  constructor
  · rintro ⟨⟨b, ⟨hb, htakes⟩, heq⟩, hquoted⟩
    exact ⟨b, hb, htakes, heq, hquoted⟩
  · rintro ⟨b, hb, htakes, heq, hquoted⟩
    exact ⟨⟨b, ⟨hb, htakes⟩, heq⟩, hquoted⟩

/-- No two anchors of blocks are at one offset, and they are in order. -/
lemma anchorOffsets_strict (table : LineTable) (bs : List Markdown.Block) :
    (anchorOffsets table bs).Pairwise (· < ·) := by
  rw [anchorOffsets]
  exact dropRepeats_pairwise (orderBy_key_pairwise id _)

/-- The offsets of anchors are in order. -/
lemma anchorOffsets_pairwise (table : LineTable) (bs : List Markdown.Block) :
    (anchorOffsets table bs).Pairwise (· ≤ ·) :=
  (anchorOffsets_strict table bs).imp le_of_lt

lemma anchorOffset_le (text : Text) (b : Markdown.Block) :
    anchorOffset (LineTable.ofText text) b ≤ text.length := by
  have hstart := LineTable.lineStart_le text b.first
  have hblank : (LineTable.ofText text).firstNonBlank b.first ≤ text.length := by
    have hcount : blankCount ((LineTable.ofText text).lineText b.first) ≤
        ((LineTable.ofText text).lineText b.first).length :=
      (List.takeWhile_sublist _).length_le
    have hline := LineTable.lineText_le text b.first
    have hnext := LineTable.lineStart_le text (b.first + 1)
    rw [LineTable.firstNonBlank]
    omega
  rw [anchorOffset]
  split
  · exact hstart
  · exact hblank

/-- Anchors are set inside the text. -/
lemma anchorOffsets_le {text : Text} {bs : List Markdown.Block} {o : Nat}
    (h : o ∈ anchorOffsets (LineTable.ofText text) bs) : o ≤ text.length := by
  obtain ⟨b, -, -, rfl, -⟩ := mem_anchorOffsets.mp h
  exact anchorOffset_le text b

/-! ### Marks -/

/-- Marks at offsets in order, located without going back, are in order. -/
lemma marksFrom_pairwise {locate : Nat → EditorPosition} {count : Nat} {offsets : List Nat}
    (h : offsets.Pairwise fun m n => (locate m).offset ≤ (locate n).offset) :
    (marksFrom locate count offsets).Pairwise fun a b => a.editor.offset ≤ b.editor.offset := by
  induction offsets generalizing count with
  | nil => exact List.Pairwise.nil
  | cons offset offsets ih =>
      obtain ⟨hfirst, hrest⟩ := List.pairwise_cons.mp h
      rw [marksFrom]
      refine List.pairwise_cons.mpr ⟨fun m hm => ?_, ih hrest⟩
      obtain ⟨hmem, heditor, -⟩ := mem_marksFrom hm
      rw [heditor]
      exact hfirst m.offset hmem

lemma injectAnchorsBy_eq_ok {locate : Nat → EditorPosition} {text out : Text}
    {anchors : List Anchor} (h : injectAnchorsBy locate text = .ok (out, anchors)) :
    ∃ bs, Markdown.parse text = .ok bs ∧
      out = splice text
        ((marks (LineTable.ofText text) bs locate).map (Mark.edit (LineTable.ofText text))) ∧
      anchors = (marks (LineTable.ofText text) bs locate).map Mark.anchor := by
  rw [injectAnchorsBy] at h
  obtain ⟨bs, hparse, hpure⟩ := exists_of_bind_eq_ok h
  obtain ⟨rfl, rfl⟩ := Prod.mk.inj (Except.ok.inj hpure)
  exact ⟨bs, hparse, rfl, rfl⟩

lemma injectAnchorsBy_of_parse {text : Text} {bs : List Markdown.Block}
    (locate : Nat → EditorPosition) (h : Markdown.parse text = .ok bs) :
    injectAnchorsBy locate text = .ok
      (splice text
        ((marks (LineTable.ofText text) bs locate).map (Mark.edit (LineTable.ofText text))),
      (marks (LineTable.ofText text) bs locate).map Mark.anchor) := by
  rw [injectAnchorsBy, h]
  rfl

/-! ### Looking up -/

/-- Where the members that satisfy `p` are in front, they are the ones up to the first that does
not. -/
lemma takeWhile_eq_filter {α : Type} {p : α → Bool} {xs : List α}
    (h : xs.Pairwise fun a b => p b = true → p a = true) : xs.takeWhile p = xs.filter p := by
  induction xs with
  | nil => rfl
  | cons x xs ih =>
      obtain ⟨hx, hxs⟩ := List.pairwise_cons.mp h
      by_cases hp : p x = true
      · rw [List.takeWhile_cons_of_pos hp, List.filter_cons_of_pos hp, ih hxs]
      · rw [List.takeWhile_cons_of_neg hp, List.filter_cons_of_neg hp, Eq.comm,
          List.filter_eq_nil_iff]
        exact fun y hy hpy => hp (hx y hy hpy)

/-- Among anchors in order, looking up an offset stops at the last anchor that does not lie behind
it. -/
lemma nearestToOffset_eq {anchors : List Anchor} (offset : Int)
    (h : anchors.Pairwise fun a b => a.editor.offset ≤ b.editor.offset) :
    SourceMap.nearestToOffset? ⟨anchors⟩ offset =
      (anchors.filter (·.editor.offset ≤ offset)).getLast? := by
  rw [SourceMap.nearestToOffset?, takeWhile_eq_filter]
  refine h.imp fun {a b} hab hb => ?_
  simp only [decide_eq_true_eq] at hb ⊢
  omega

/-! ### Both passes -/

/-- A way to place offsets of the text without diagrams in the authored text: each is placed where
one offset of the authored text is, and none in front of an earlier one. -/
structure Locates (source text : Text) (locate : Nat → EditorPosition) : Prop where
  inside : ∀ o ≤ text.length, ∃ p ≤ source.length, locate o = (LineTable.ofText source).position p
  mono : ∀ o o', o ≤ o' → (locate o).offset ≤ (locate o').offset

/-- The way back through the edits of diagrams is one. -/
lemma locateSource_locates {source : Text} {edits : List Edit} (h : Fits 0 source.length edits) :
    Locates source (splice source edits) (locateSource source edits) := by
  have hfits : Fits 0 source.length (orderEdits edits) := by rwa [h.orderEdits_eq]
  refine ⟨fun o ho => ⟨(sourceOffset edits o).toNat, ?_, rfl⟩, fun o o' ho => ?_⟩
  · have hend := sourceOffset_length hfits
    have hmono : sourceOffset edits o ≤ sourceOffset edits (splice source edits).length :=
      sourceOffsetAux_mono hfits (by omega)
    omega
  · have hmono : sourceOffset edits o ≤ sourceOffset edits o' :=
      sourceOffsetAux_mono hfits (by omega)
    exact LineTable.position_mono source (by omega)

/-- The marks of a text that is located in a source are a map of the source: they begin at its
start, their names differ, and their places are in order and places of the source. -/
lemma marks_map {source text : Text} {locate : Nat → EditorPosition}
    (h : Locates source text locate) (bs : List Markdown.Block) :
    (marks (LineTable.ofText text) bs locate).Pairwise
        (fun a b => a.editor.offset ≤ b.editor.offset) ∧
      ∀ m ∈ marks (LineTable.ofText text) bs locate,
        ∃ p ≤ source.length, m.editor = (LineTable.ofText source).position p := by
  have hrest : ∀ m ∈ marksFrom locate 1 (anchorOffsets (LineTable.ofText text) bs),
      ∃ p ≤ source.length, m.editor = (LineTable.ofText source).position p := by
    intro m hm
    obtain ⟨hmem, heditor, -⟩ := mem_marksFrom hm
    rw [heditor]
    exact h.inside m.offset (anchorOffsets_le hmem)
  rw [marks]
  refine ⟨List.pairwise_cons.mpr ⟨fun m hm => ?_, marksFrom_pairwise ?_⟩, fun m hm => ?_⟩
  · obtain ⟨p, -, heditor⟩ := hrest m hm
    rw [heditor]
    exact Int.natCast_nonneg _
  · exact (anchorOffsets_pairwise _ bs).imp fun {o o'} ho => h.mono o o' ho
  · rcases List.mem_cons.mp hm with rfl | hm
    · exact ⟨0, Nat.zero_le _, (LineTable.position_zero source).symm⟩
    · exact hrest m hm

/-- What both passes do to a document: the anchors are those of marks set in the text without
diagrams. -/
lemma preprocess_eq_ok {source : Text} {r : Preprocessed} (h : preprocess source = .ok r) :
    ∃ text locate bs, Locates source text locate ∧
      r.anchors = (marks (LineTable.ofText text) bs locate).map Mark.anchor := by
  rw [preprocess] at h
  obtain ⟨found, hfound, hrest⟩ := exists_of_bind_eq_ok h
  obtain ⟨⟨result, anchors⟩, hinject, hpure⟩ := exists_of_bind_eq_ok hrest
  obtain ⟨bs, -, -, hanchors⟩ := injectAnchorsBy_eq_ok hinject
  obtain rfl := Except.ok.inj hpure
  exact ⟨_, _, bs, locateSource_locates (diagramEdits_fit hfound), hanchors⟩

/-- The anchors of a document are a well-ordered map of the authored text: they begin at its start,
no two have one name, their octets never go back, and each stands where one offset of the authored
text is, whatever diagrams were taken out. So looking up an offset, which stops at the first anchor
behind it, finds the last anchor of all that is not behind it, and always one. -/
theorem preprocess_anchors (source : Text) (r : Preprocessed) (h : preprocess source = .ok r) :
    r.anchors.head? = some ⟨CodeText.ofText "tf-doc-start".toList, ⟨0, 0, 0⟩, none⟩ ∧
      (r.anchors.map Anchor.id).Nodup ∧
      r.anchors.Pairwise (fun a b => a.editor.offset ≤ b.editor.offset) ∧
      (∀ a ∈ r.anchors, ∃ o ≤ source.length, a.editor = (LineTable.ofText source).position o) ∧
      ∀ n : Int, 0 ≤ n →
        (SourceMap.nearestToOffset? ⟨r.anchors⟩ n).isSome = true ∧
          SourceMap.nearestToOffset? ⟨r.anchors⟩ n =
            (r.anchors.filter (·.editor.offset ≤ n)).getLast? := by
  obtain ⟨text, locate, bs, hlocates, hanchors⟩ := preprocess_eq_ok h
  obtain ⟨hpairwise, hplaces⟩ := marks_map hlocates bs
  have hordered : r.anchors.Pairwise fun a b => a.editor.offset ≤ b.editor.offset := by
    rw [hanchors]
    exact List.pairwise_map.mpr hpairwise
  have hfirst : r.anchors = startMark.anchor ::
      (marksFrom locate 1 (anchorOffsets (LineTable.ofText text) bs)).map Mark.anchor := hanchors
  refine ⟨?_, ?_, hordered, ?_, fun n hn => ⟨?_, nearestToOffset_eq n hordered⟩⟩
  · rw [hfirst, List.head?_cons]
    rfl
  · rw [hanchors, List.map_map]
    have hids : Anchor.id ∘ Mark.anchor = CodeText.ofText ∘ Mark.id := rfl
    rw [hids, ← List.map_map]
    exact List.Nodup.map ofText_injective (marks_id_nodup (LineTable.ofText text) bs locate)
  · intro a ha
    rw [hanchors] at ha
    obtain ⟨m, hm, rfl⟩ := List.mem_map.mp ha
    exact hplaces m hm
  · -- the first anchor is never behind
    have hmem : startMark.anchor ∈ r.anchors.filter (·.editor.offset ≤ n) := by
      refine List.mem_filter.mpr ⟨?_, decide_eq_true hn⟩
      rw [hfirst]
      exact List.mem_cons_self
    rw [nearestToOffset_eq n hordered, List.getLast?_isSome]
    exact List.ne_nil_of_mem hmem

/-- A paragraph, a diagram and a list. The anchor behind the diagram stands where the list is in
the authored text. -/
theorem preprocess_anchors_list :
    let source : Text := "a\n\n~~~tikz\nx\n~~~\n\n- b\n".toList
    ∃ r, preprocess source = .ok r ∧
      r.anchors.map Anchor.editor = [⟨0, 0, 0⟩, ⟨0, 0, 0⟩, ⟨18, 6, 0⟩] ∧
      (r.anchors.map Anchor.id).Nodup ∧
      (SourceMap.nearestToOffset? ⟨r.anchors⟩ 17).isSome = true ∧
      SourceMap.nearestToOffset? ⟨r.anchors⟩ 17 =
        (r.anchors.filter (·.editor.offset ≤ 17)).getLast? := by
  intro source
  have hanchors : (preprocess source).toOption.map (fun r => r.anchors.map Anchor.editor) =
      some [⟨0, 0, 0⟩, ⟨0, 0, 0⟩, ⟨18, 6, 0⟩] := by decide +kernel
  cases h : preprocess source with
  | error e => rw [h] at hanchors; simp [Except.toOption] at hanchors
  | ok r =>
      obtain ⟨-, hnodup, -, -, hnearest⟩ := preprocess_anchors source r h
      rw [h] at hanchors
      exact ⟨r, rfl, Option.some.inj hanchors, hnodup, hnearest 17 (by decide)⟩

/-- A label in front of indented code begins its line, and so it ends the list that the code is in.
What follows in the list is code of another kind: a fence in it is none any more. -/
theorem injectAnchors_loses_fence :
    let markdown : Text :=
      "1000. a\n\n          code\n\n      ~~~tikz\n      x\n      ~~~\n".toList
    let bodies (text : Text) :=
      (Markdown.parse text).toOption.map fun bs => (fences bs).map FenceBlock.body
    bodies markdown = some ["x\n".toList] ∧
      ((injectAnchors markdown).toOption.bind fun r => bodies r.1) = some [] := by
  decide +kernel

end Galley
