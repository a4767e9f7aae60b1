import Galley.Proofs.Directives
import Mathlib.Tactic

/-!
Which fences are taken out of a text, and from where on.

* `Front`: what containers take from the front of a line, and `Behind`: what they leave of it;
  `keptInside_behind` says that every container does so;
* `fence_line`: so the first line of a fence is a front, its mark and its info string;
* `Front.exists_label`, `Front.firstOffset`: a front holds a mark only in the label of a footnote,
  and a mark behind a front without one is found where it stands;
* `extractDiagrams_fences`: what is extracted are the fences whose info strings are those of
  diagrams, each from its own mark on, if no label in front of a fence holds its mark;
* `extractDiagrams_misses_fence`, `extractDiagrams_takes_label`: with such a label, the fence is
  taken from the label on, or it is not taken at all.
-/

namespace Galley

open Markdown (Block KeptInside OpensIn documentEvents_opened fenceOpening? parse visible)

/-! ### The front of a line -/

/-- How a footnote begins. -/
def noteHead (label : Text) : Text := "[^".toList ++ label ++ "]:".toList

/-- What containers take from the front of a line: blanks and marks that are not those of fences,
and the heads of footnotes. -/
inductive Front : Text → Prop where
  | nil : Front []
  | plain {front : Text} {c : Char} : Front front → c ≠ '~' → c ≠ '\x60' → Front (front ++ [c])
  | note {front label : Text} : Front front → Front (front ++ noteHead label)

lemma Front.append {front u : Text} (h : Front front) (hu : ∀ c ∈ u, c ≠ '~' ∧ c ≠ '\x60') :
    Front (front ++ u) := by
  induction u generalizing front with
  | nil => rwa [List.append_nil]
  | cons c u ih =>
      obtain ⟨htilde, htick⟩ := hu c List.mem_cons_self
      have := ih (h.plain htilde htick) fun d hd => hu d (List.mem_cons_of_mem c hd)
      rwa [List.append_assoc, List.singleton_append] at this

/-- A front does not end with the mark of a fence. -/
lemma Front.eq_nil_or_concat {front : Text} (h : Front front) :
    front = [] ∨ ∃ u c, front = u ++ [c] ∧ c ≠ '~' ∧ c ≠ '\x60' := by
  cases h with
  | nil => exact Or.inl rfl
  | plain _ htilde htick => exact Or.inr ⟨_, _, rfl, htilde, htick⟩
  | note =>
      rename_i front label _
      refine Or.inr ⟨front ++ "[^".toList ++ label ++ [']'], ':', ?_, by decide, by decide⟩
      simp [noteHead]

/-- A front holds a mark only in the label of a footnote. -/
lemma Front.exists_label {front : Text} (h : Front front) {w : Nat} {c : Char}
    (hc : c = '~' ∨ c = '\x60') (hmark : List.replicate (w + 1) c <:+: front) :
    ∃ label, noteHead label <:+: front ∧ List.replicate (w + 1) c <:+: label := by
  have hsep : ∀ d, d ≠ '~' → d ≠ '\x60' → d ∉ List.replicate (w + 1) c := by
    rintro d htilde htick hd
    rw [List.eq_of_mem_replicate hd] at htilde htick
    exact hc.elim htilde htick
  have hnil : ¬List.replicate (w + 1) c <:+: [] := by simp
  induction h with
  | nil => exact absurd hmark hnil
  | plain _ htilde htick ih =>
      rw [infix_append_cons (hsep _ htilde htick)] at hmark
      obtain ⟨label, hlabel, hmark⟩ := ih (hmark.resolve_right hnil)
      exact ⟨label, hlabel.trans (List.prefix_append _ _).isInfix, hmark⟩
  | note _ ih =>
      rename_i front label _
      have hhead : front ++ noteHead label =
          front ++ '[' :: '^' :: (label ++ ']' :: ':' :: []) := by
        simp [noteHead]
      rw [hhead, infix_append_cons (hsep _ (by decide) (by decide)),
        infix_cons_of_notMem (hsep _ (by decide) (by decide)),
        infix_append_cons (hsep _ (by decide) (by decide)),
        infix_cons_of_notMem (hsep _ (by decide) (by decide))] at hmark
      rcases hmark with hmark | hmark | hmark
      · obtain ⟨label', hlabel, hmark⟩ := ih hmark
        exact ⟨label', hlabel.trans (List.prefix_append _ _).isInfix, hmark⟩
      · exact ⟨label, (List.suffix_append _ _).isInfix, hmark⟩
      · exact absurd hmark hnil

/-- A mark behind a front is found where it stands, unless the front holds it as well. -/
lemma Front.firstOffset {front : Text} (h : Front front) {w : Nat} {c : Char}
    (hc : c = '~' ∨ c = '\x60') (hmark : ¬List.replicate (w + 1) c <:+: front) (info : Text) :
    firstOffset? (List.replicate (w + 1) c) (front ++ (List.replicate (w + 1) c ++ info)) =
      some front.length := by
  rcases h.eq_nil_or_concat with rfl | ⟨u, d, rfl, htilde, htick⟩
  · obtain ⟨n, hn, hfound⟩ :=
      exists_firstOffset [] (List.prefix_append (List.replicate (w + 1) c) info)
    rwa [Nat.le_zero.mp hn] at hfound
  · have hd : d ∉ List.replicate (w + 1) c := by
      intro hd
      rw [List.eq_of_mem_replicate hd] at htilde htick
      exact hc.elim htilde htick
    rw [infix_append_cons hd, not_or] at hmark
    rw [List.append_assoc, List.singleton_append, List.length_append, List.length_singleton]
    exact (firstOffset_append_cons hd (List.prefix_append _ info)).mpr hmark.1

/-! ### The first line of a fence -/

/-- What containers leave of a line. -/
def Behind (line content : Text) : Prop := ∃ front, Front front ∧ line = front ++ content

lemma isBlank_ne {c : Char} (h : isBlank c = true) : c ≠ '~' ∧ c ≠ '\x60' := by
  refine ⟨?_, ?_⟩ <;> (rintro rfl; revert h; decide)

/-- A container takes a piece `u` of the line and the blanks behind it. -/
lemma Behind.drop {line u v : Text} (hu : ∀ {front}, Front front → Front (front ++ u))
    (h : Behind line (u ++ v)) : Behind line (v.dropWhile isBlank) := by
  obtain ⟨front, hfront, rfl⟩ := h
  refine ⟨front ++ u ++ v.takeWhile isBlank, (hu hfront).append ?_, ?_⟩
  · exact fun c hc => isBlank_ne (List.mem_takeWhile_imp hc)
  · rw [List.append_assoc, List.takeWhile_append_dropWhile, List.append_assoc]

lemma keptInside_behind (line : Text) : KeptInside (Behind line) where
  quote h := Behind.drop (u := ['>']) (fun hfront => hfront.plain (by decide) (by decide)) h
  item {content marker} hmarker h := by
    obtain ⟨u, v, rfl, hlength, hu⟩ := marker_split hmarker
    rw [← hlength, List.drop_left]
    refine h.drop fun hfront => hfront.append fun c hc => ?_
    exact ⟨ne_of_mem_of_not_mem (hu hc) (by decide), ne_of_mem_of_not_mem (hu hc) (by decide)⟩
  note {content label rest} hlabel h := by
    obtain ⟨rfl, -⟩ := noteLabel_split hlabel
    refine h.drop fun hfront => ?_
    have hhead : '[' :: '^' :: label ++ [']'] ++ [':'] = noteHead label := by simp [noteHead]
    rw [hhead]
    exact hfront.note

lemma map_visible {t : Text} (h : '\x00' ∉ t) : t.map visible = t := by
  refine (List.map_congr_left fun c hc => ?_).trans (List.map_id t)
  have hne : c ≠ '\x00' := fun heq => h (heq ▸ hc)
  simp [visible, hne]

lemma LineTable.lineText_subset (text : Text) (n : Nat) :
    (LineTable.ofText text).lineText n ⊆ text := fun _ hc =>
  List.mem_of_mem_drop ((List.takeWhile_sublist _).subset hc)

/-- The first line of a fence is a front, its mark and its info string. -/
lemma fence_line {text : Text} {bs : List Block} {f : FenceBlock} (hnul : '\x00' ∉ text)
    (hparse : parse text = .ok bs) (hf : f ∈ fences bs) :
    ∃ front w c, Front front ∧ f.mark = List.replicate (w + 1) c ∧ (c = '~' ∨ c = '\x60') ∧
      (LineTable.ofText text).lineText f.first = front ++ (f.mark ++ f.info) := by
  obtain ⟨depth, hmem⟩ := event_of_mem_fences hparse hf
  have hopened := documentEvents_opened (t := text)
    (P := fun n => Behind ((LineTable.ofText text).lineText n))
    (fun n => keptInside_behind _) fun n => ?_
  · obtain ⟨content, opening, ⟨front, hfront, hline⟩, hopening, hmark, hinfo⟩ :=
      hopened _ _ _ _ _ _ hmem
    obtain ⟨hcontent, hwidth, hc⟩ := fenceOpening_split hopening
    obtain ⟨w, hw⟩ := Nat.exists_eq_succ_of_ne_zero hwidth.ne'
    refine ⟨front, w, opening.mark, hfront, by rw [hmark, hw], hc, ?_⟩
    rw [hline, hmark, hinfo, ← hcontent]
  · rw [map_visible fun h => hnul (LineTable.lineText_subset text n h)]
    exact Behind.drop (u := []) (fun hfront => by rwa [List.append_nil]) ⟨[], .nil, rfl⟩

/-! ### The fences that are taken -/

/-- What stands in front of the mark of a fence on its first line. -/
def FenceBlock.front (f : FenceBlock) (table : LineTable) : Text :=
  (table.lineText f.first).take
    ((table.lineText f.first).length - (f.mark.length + f.info.length))

/-- The fences whose info strings are those of diagrams, each with its options. -/
def diagramFences (fs : List FenceBlock) : List (FenceBlock × DiagramOptions) :=
  fs.filterMap fun f => (Fence.diagramOptions? f.info).map fun options => (f, options)

/-- The diagram of a fence with its number, and the edit that replaces the fence from its mark
on. -/
def fenceEdit (table : LineTable) : (FenceBlock × DiagramOptions) × Nat → Edit × Diagram
  | ((f, options), n) =>
      (⟨table.lineStart f.first + (f.front table).length, table.lineStart f.past,
          diagramDirective f.body options⟩,
        ⟨"tikz-".toList ++ Text.ofNat n, f.body, options⟩)

/-- The fences among blocks that are diagrams, numbered by their first lines. -/
def fenceEdits (text : Text) (bs : List Block) : List (Edit × Diagram) :=
  (diagramFences (fences bs)).zipIdx.map (fenceEdit (LineTable.ofText text))

lemma front_eq {table : LineTable} {f : FenceBlock} {front : Text}
    (h : table.lineText f.first = front ++ (f.mark ++ f.info)) : f.front table = front := by
  rw [FenceBlock.front, h, List.length_append, List.length_append, Nat.add_sub_cancel_right,
    List.take_left]

/-- If the mark of a fence is found where it stands, the opening is its mark and its info string. -/
lemma opening_eq {table : LineTable} {f : FenceBlock} {front info : Text}
    (hline : table.lineText f.first = front ++ (f.mark ++ info)) (hmark : f.mark ≠ [])
    (hfound : firstOffset? f.mark (front ++ (f.mark ++ info)) = some front.length) :
    f.opening table = (table.lineStart f.first + front.length, info) := by
  have hfilled : f.mark.isEmpty = false := List.isEmpty_eq_false_iff.mpr hmark
  rw [FenceBlock.opening, hline, hfilled, if_neg Bool.false_ne_true, hfound]
  dsimp only
  rw [← List.append_assoc, List.drop_left' (List.length_append)]

/-- With every fence opened at its own mark, the edits are those of the fences with diagrams. -/
lemma diagramEditsAux_eq {table : LineTable} {fs : List FenceBlock} (count : Nat)
    (h : ∀ f ∈ fs, f.opening table =
      (table.lineStart f.first + (f.front table).length, f.info)) :
    diagramEditsAux table count fs = ((diagramFences fs).zipIdx count).map (fenceEdit table) := by
  induction fs generalizing count with
  | nil => rfl
  | cons f fs ih =>
      have hf := h f List.mem_cons_self
      have hfs := fun n => ih n fun g hg => h g (List.mem_cons_of_mem f hg)
      rw [diagramEditsAux, diagramFences, List.filterMap_cons, hf]
      cases hoptions : Fence.diagramOptions? f.info with
      | none => exact hfs count
      | some options =>
          dsimp only [Option.map_some]
          rw [List.zipIdx_cons, List.map_cons, hfs (count + 1), diagramEdit, hf]
          rfl

/-- What is extracted are the fences whose info strings are those of diagrams, in the order of their
first lines, and each is replaced from its own mark on: if no label of a footnote in front of a
fence holds its mark. -/
theorem extractDiagrams_fences {text : Text} {bs : List Block} (hnul : '\x00' ∉ text)
    (hparse : parse text = .ok bs)
    (hlabels : ∀ f ∈ fences bs, ∀ label,
      noteHead label <:+: f.front (LineTable.ofText text) → ¬f.mark <:+: label) :
    extractDiagrams text =
        .ok (splice text ((fenceEdits text bs).map Prod.fst), (fenceEdits text bs).map Prod.snd) ∧
      (fences bs).Perm (bs.filterMap FenceBlock.ofBlock?) ∧
      (fences bs).Pairwise (fun f g => f.first < g.first) ∧
      ∀ f ∈ fences bs, (LineTable.ofText text).lineText f.first =
        f.front (LineTable.ofText text) ++ (f.mark ++ f.info) := by
  have hopening : ∀ f ∈ fences bs, f.opening (LineTable.ofText text) =
      ((LineTable.ofText text).lineStart f.first + (f.front (LineTable.ofText text)).length,
        f.info) := by
    intro f hf
    obtain ⟨front, w, c, hfront, hmark, hc, hline⟩ := fence_line hnul hparse hf
    rw [front_eq hline]
    refine opening_eq hline (by simp [hmark]) ?_
    rw [hmark]
    refine hfront.firstOffset hc (fun hheld => ?_) f.info
    obtain ⟨label, hhead, hheld⟩ := hfront.exists_label hc hheld
    exact hlabels f hf label (by rwa [front_eq hline]) (hmark ▸ hheld)
  refine ⟨?_, orderBy_perm _ _, ?_, fun f hf => ?_⟩
  · rw [extractDiagrams_of_edits (diagramEdits_of_parse hparse), diagramEditsAux_eq 0 hopening]
    rfl
  · obtain ⟨hapart, hlt⟩ := fences_pairwise hparse
    exact hapart.imp_of_mem fun hf _ hle => (hlt _ hf).trans_le hle
  · obtain ⟨front, w, c, -, -, -, hline⟩ := fence_line hnul hparse hf
    rw [front_eq hline, hline]

/-- Of the two fences below, the one in the footnote is a diagram. In the block structure it comes
last, and its line begins with the head of the footnote. -/
theorem extractDiagrams_fences_note :
    let text := "[^a]\n\n> [^a]: ~~~tikz\n>     x\n>     ~~~\n\n~~~c\ny\n~~~\n".toList
    let bs : List Block := [⟨.paragraph "[^a]".toList, 0, 1, 0⟩, ⟨.quote, 2, 5, 0⟩,
      ⟨.fence "~~~".toList "c".toList "y\n".toList, 6, 9, 0⟩,
      ⟨.fence "~~~".toList "tikz".toList "x\n".toList, 2, 5, 2⟩]
    parse text = .ok bs ∧
      fenceEdits text bs = [(⟨14, 40, diagramDirective "x\n".toList {}⟩,
        ⟨"tikz-0".toList, "x\n".toList, {}⟩)] ∧
      extractDiagrams text =
        .ok (splice text ((fenceEdits text bs).map Prod.fst), (fenceEdits text bs).map Prod.snd) := by
  intro text bs
  have hparse : parse text = .ok bs := by decide +kernel
  have hfront : ∀ f ∈ fences bs, ¬f.mark <:+: f.front (LineTable.ofText text) := by
    decide +kernel
  refine ⟨hparse, by decide +kernel, (extractDiagrams_fences (by decide +kernel) hparse ?_).1⟩
  intro f hf label hhead hheld
  have hlabel : label <:+: noteHead label := ⟨"[^".toList, "]:".toList, rfl⟩
  exact hfront f hf ((hheld.trans hlabel).trans hhead)

/-- A label may hold the mark of the fence in its footnote. The fence is then looked for in the
label, and it is missed if the label does not go on as the info string of a diagram. -/
theorem extractDiagrams_misses_fence :
    let text := "[^~~~]\n\n[^~~~]: ~~~tikz\n    x\n    ~~~\n".toList
    (parse text).map (fun bs => (diagramFences (fences bs)).map Prod.snd) = .ok [{}] ∧
      extractDiagrams text = .ok (text, []) := by
  decide +kernel

/-- If the label goes on as the info string of a diagram, a fence that is no diagram is taken, from
the label on. -/
theorem extractDiagrams_takes_label :
    let text := "x [^~~~tikz,a]\n\n[^~~~tikz,a]: ~~~\n    x\n    ~~~\n".toList
    (parse text).map (fun bs => (diagramFences (fences bs)).map Prod.snd) = .ok [] ∧
      (extractDiagrams text).map Prod.snd = .ok [⟨"tikz-0".toList, "x\n".toList, {}⟩] := by
  decide +kernel

end Galley
