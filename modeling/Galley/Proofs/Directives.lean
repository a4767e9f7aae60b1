import Galley.Proofs.Fences
import Galley.Proofs.Markdown.Openings
import Galley.Proofs.Numerals
import Mathlib.Tactic

/-!
Directives in a text, and the diagrams that are found behind them.

* `diagramDirective_line`: a directive is a line of its own, whatever its arguments are;
* `Remainder`: what is left of a line holds the directive at the end of the line as a whole;
  `keptInside_remainder` says that containers keep it so;
* `fence_remainder`, `opening_in_front`: so a fence is opened in front of the directive on its line;
* `diagramEdits_splice`: what is taken out of a text without its diagrams begins with a mark that
  stood in the text before;
* `extractDiagrams_twice`: a text without its diagrams may have diagrams all the same.
-/

namespace Galley

open Markdown (KeptInside ListMarker OpensIn bulletMarker? documentEvents_opened fenceOpening?
  noteLabel? orderedMarker? parse visible)

/-! ### Directives on their lines -/

lemma plain_flatMap {α : Type} {xs : List α} {f : α → Text} (h : ∀ x ∈ xs, Plain (f x)) :
    Plain (xs.flatMap f) := by
  intro c hc
  obtain ⟨x, hx, hcx⟩ := List.mem_flatMap.mp hc
  exact h x hx c hcx

lemma plain_joinWith {separator : Text} {pieces : List Text} (hseparator : Plain separator)
    (h : ∀ p ∈ pieces, Plain p) : Plain (joinWith separator pieces) := by
  cases pieces with
  | nil => exact plain_nil
  | cons p ps =>
      obtain ⟨hp, hps⟩ := List.forall_mem_cons.mp h
      rw [joinWith_cons]
      exact plain_append.mpr
        ⟨hp, plain_flatMap fun q hq => plain_append.mpr ⟨hseparator, hps q hq⟩⟩

lemma Plain.subset {s t : Text} (h : Plain t) (hst : s ⊆ t) : Plain s := fun c hc => h c (hst hc)

lemma plain_numberArgument (x : Binary64) : Plain (numberArgument x) :=
  Plain.subset (by decide) (numberArgument_subset x)

lemma plain_stringLiteral (t : Text) : Plain (stringLiteral t) := by
  have hescape : ∀ c ∈ t, Plain (escapeChar c) := by
    intro c _
    unfold escapeChar
    split
    iterate 5 decide
    · rename_i hfeed hreturn _
      refine plain_cons.mpr ⟨?_, plain_nil⟩
      rw [isLineBreak, Bool.or_eq_false_iff]
      exact ⟨beq_false_of_ne hfeed, beq_false_of_ne hreturn⟩
  refine plain_cons.mpr ⟨rfl, plain_append.mpr ⟨plain_flatMap hescape, ?_⟩⟩
  exact plain_cons.mpr ⟨rfl, plain_nil⟩

lemma plain_scaleArgument (raw : Text) : Plain (scaleArgument raw) := by
  rw [scaleArgument]
  generalize raw.trim = trimmed
  split_ifs
  · decide
  · decide
  · split
    · split_ifs
      · exact plain_numberArgument _
      · exact plain_stringLiteral _
    · exact plain_stringLiteral _

lemma plain_diagramArguments (source : Text) (options : DiagramOptions) :
    ∀ a ∈ diagramArguments source options, Plain a := by
  have hnamed : ∀ {name value : Text}, Plain name → Plain value →
      ∀ a ∈ [name ++ value], Plain a := by
    intro name value hname hvalue a ha
    rw [List.mem_singleton.mp ha]
    exact plain_append.mpr ⟨hname, hvalue⟩
  intro a ha
  rw [diagramArguments] at ha
  simp only [List.mem_append] at ha
  rcases ha with ((ha | ha) | ha) | ha
  · exact hnamed (by decide) (plain_stringLiteral _) a ha
  · split at ha
    · split_ifs at ha
      · simp at ha
      · exact hnamed (by decide) (plain_scaleArgument _) a ha
    · simp at ha
  · split at ha
    · exact hnamed (by decide) (plain_stringLiteral _) a ha
    · simp at ha
  · split at ha
    · split_ifs at ha
      · simp at ha
      · exact hnamed (by decide) (plain_stringLiteral _) a ha
    · simp at ha

/-- What every directive begins with. -/
def directiveHead : Text := "<!--raw-typst ".toList

/-- The directive of a diagram is one line, and its break ends it. -/
lemma diagramDirective_line (source : Text) (options : DiagramOptions) :
    ∃ line, diagramDirective source options = line ++ ['\n'] ∧ Plain line ∧
      directiveHead <+: line := by
  have hcall : Plain (joinWith ", ".toList (diagramArguments source options)) :=
    plain_joinWith (by decide) (plain_diagramArguments source options)
  unfold diagramDirective directive
  generalize joinWith ", ".toList (diagramArguments source options) = call at hcall ⊢
  have hfront : Plain directiveHead := by decide
  have hname : Plain "#tikz_render(".toList := by decide
  have hback : Plain ") -->".toList := by decide
  refine ⟨directiveHead ++ ("#tikz_render(".toList ++ call ++ ") -->".toList), ?_, ?_,
    List.prefix_append _ _⟩
  · unfold directiveHead
    simp
  · exact plain_append.mpr ⟨hfront, plain_append.mpr ⟨plain_append.mpr ⟨hname, hcall⟩, hback⟩⟩

/-! ### Directives inside containers -/

lemma suffix_of_append {s u v : Text} (h : s <:+ u ++ v)
    (hu : ∀ w, w <:+ u → w <+: s → w = []) : s <:+ v := by
  rcases List.suffix_or_suffix_of_suffix h (List.suffix_append u v) with h' | ⟨w, rfl⟩
  · exact h'
  · rw [hu w (List.suffix_append_self_iff.mp h) (List.prefix_append w v)]
    exact List.suffix_rfl

/-- What containers may leave of a line: it ends the line, and if the line ends with a directive,
then so does what is left. -/
def Remainder (line content : Text) : Prop :=
  content <:+ line ∧ ∀ d, directiveHead <+: d → d <:+ line → d <:+ content

/-- Blanks in front of a directive are not part of it. -/
lemma remainder_dropWhile {line content : Text} (h : Remainder line content) :
    Remainder line (content.dropWhile isBlank) := by
  refine ⟨(List.dropWhile_suffix _).trans h.1, fun d hd hline => ?_⟩
  obtain ⟨front, rfl⟩ := h.2 d hd hline
  obtain ⟨rest, rfl⟩ := hd
  rw [List.dropWhile_append]
  split_ifs
  · exact List.suffix_rfl
  · exact List.suffix_append _ _

/-- A container takes the front `u` of a content, and no directive begins in there. -/
lemma Remainder.drop {line u v : Text} (h : Remainder line (u ++ v))
    (hu : ∀ d w, directiveHead <+: d → w <:+ u → w <+: d → w = []) : Remainder line v :=
  ⟨(List.suffix_append u v).trans h.1,
    fun d hd hline => suffix_of_append (h.2 d hd hline) fun w => hu d w hd⟩

/-- Without an angle bracket, no directive begins. -/
lemma no_directive {u : Text} (hu : '<' ∉ u) (d w : Text) (hd : directiveHead <+: d)
    (hwu : w <:+ u) (hwd : w <+: d) : w = [] := by
  cases w with
  | nil => rfl
  | cons c w =>
      obtain ⟨rest, rfl⟩ := hd
      obtain ⟨rest', heq⟩ := hwd
      have hc : c = '<' := (List.cons.inj heq).1
      exact absurd (hwu.subset (hc ▸ List.mem_cons_self)) hu

/-- The characters of list markers. -/
def markerAlphabet : Text := "0123456789.)*-+".toList

lemma marker_split {content : Text} {marker : ListMarker}
    (h : orderedMarker? content = some marker ∨ bulletMarker? content = some marker) :
    ∃ u v, content = u ++ v ∧ u.length = marker.width ∧ u ⊆ markerAlphabet := by
  rcases h with h | h
  · have hsplit := List.takeWhile_append_dropWhile (p := isDigit) (l := content)
    rw [orderedMarker?] at h
    split at h
    · rename_i d rest hrest
      split_ifs at h with hbad
      obtain rfl := Option.some.inj h
      refine ⟨content.takeWhile isDigit ++ [d], rest, ?_, ?_, List.append_subset.mpr ⟨?_, ?_⟩⟩
      · rw [List.append_assoc, List.singleton_append, ← hrest, hsplit]
      · simp
      · intro c hc
        have hdigits : digitAlphabet ⊆ markerAlphabet := by decide
        exact hdigits (mem_digitAlphabet (List.mem_takeWhile_imp hc))
      · have hd : d = '.' ∨ d = ')' := by
          by_contra hd
          simp_all
        rcases hd with rfl | rfl <;> decide
    · simp at h
  · unfold bulletMarker? at h
    split at h
    · rename_i c rest
      split_ifs at h with hgood
      obtain rfl := Option.some.inj h
      simp only [Bool.and_eq_true, Bool.or_eq_true, beq_iff_eq] at hgood
      refine ⟨[c], rest, rfl, rfl, ?_⟩
      rcases hgood.1 with (rfl | rfl) | rfl <;> decide
    · simp at h

lemma noteLabel_split {content label rest : Text}
    (h : noteLabel? content = some (label, rest)) :
    content = ('[' :: '^' :: label ++ [']']) ++ [':'] ++ rest ∧ ' ' ∉ label := by
  unfold noteLabel? at h
  split at h
  · rename_i body
    have hsplit := List.takeWhile_append_dropWhile (p := (· != ']')) (l := body)
    dsimp only at h
    split_ifs at h with hbad
    split at h
    · rename_i rest' hrest
      simp only [Option.some.injEq, Prod.mk.injEq] at h
      obtain ⟨rfl, rfl⟩ := h
      rw [hrest] at hsplit
      refine ⟨?_, ?_⟩
      · conv_lhs => rw [← hsplit]
        simp
      · simp only [Bool.or_eq_true, not_or] at hbad
        simpa using hbad.2
    · simp at h
  · simp at h

/-- Containers keep a directive at the end of a line. -/
lemma keptInside_remainder (line : Text) : KeptInside (Remainder line) where
  quote h := remainder_dropWhile (Remainder.drop (u := ['>']) h (no_directive (by decide)))
  item {content marker} hmarker h := by
    obtain ⟨u, v, rfl, hlength, hu⟩ := marker_split hmarker
    rw [← hlength, List.drop_left]
    exact remainder_dropWhile (h.drop (no_directive fun hmem => absurd (hu hmem) (by decide)))
  note {content label rest} hlabel h := by
    obtain ⟨rfl, hspace⟩ := noteLabel_split hlabel
    refine remainder_dropWhile (h.drop fun d w hd hwu hwd => ?_)
    -- what ends with the colon has a space in it if it begins a directive
    rcases List.suffix_concat_iff.mp hwu with hnil | ⟨w', rfl, hw'⟩
    · exact hnil
    · exfalso
      rcases List.prefix_or_prefix_of_prefix hwd hd with hle | hle
      · have hcolon := hle.subset (List.mem_append_right w' List.mem_cons_self)
        revert hcolon
        decide
      · have hmem := hwu.subset (hle.subset (show ' ' ∈ directiveHead by decide))
        simp [hspace] at hmem

/-! ### Fences in front of directives -/

/-- A fence is opened by what is left of its first line. -/
lemma fence_remainder {text : Text} {bs : List Markdown.Block} {f : FenceBlock}
    (h : parse text = .ok bs) (hf : f ∈ fences bs) :
    OpensIn (Remainder (((LineTable.ofText text).lineText f.first).map visible)) f.mark f.info := by
  obtain ⟨depth, hmem⟩ := event_of_mem_fences h hf
  have hopened := documentEvents_opened (t := text)
    (P := fun n => Remainder (((LineTable.ofText text).lineText n).map visible))
    (fun n => keptInside_remainder _)
    fun n => remainder_dropWhile ⟨List.suffix_rfl, fun _ _ hline => hline⟩
  exact hopened _ _ _ _ _ _ hmem

/-- A mark that the block structure sees stands in the text. -/
lemma prefix_of_visible {n : Nat} {c : Char} {t : Text} (hc : c = '~' ∨ c = '\x60')
    (h : List.replicate n c <+: t.map visible) : List.replicate n c <+: t := by
  obtain ⟨s, hs, heq⟩ := List.prefix_map_iff.mp h
  have hsame : ∀ d, visible d = c → d = c := by
    intro d hd
    rw [visible] at hd
    split_ifs at hd
    · rcases hc with rfl | rfl <;> simp at hd
    · exact hd
  have hlength := congrArg List.length heq
  have hs' : s = List.replicate n c := by
    refine List.eq_replicate_iff.mpr ⟨by simpa using hlength.symm, fun d hd => hsame d ?_⟩
    exact List.eq_of_mem_replicate (heq ▸ List.mem_map_of_mem hd)
  exact hs' ▸ hs

/-- The opening of a fence is a mark of three characters or more, and behind it the info string. -/
lemma fenceOpening_split {content : Text} {opening : Markdown.FenceOpening}
    (h : fenceOpening? content = some opening) :
    content = List.replicate opening.width opening.mark ++ opening.info ∧ 0 < opening.width ∧
      (opening.mark = '~' ∨ opening.mark = '\x60') := by
  unfold fenceOpening? at h
  split at h
  · simp at h
  · rename_i c cs
    split_ifs at h with hc
    dsimp only at h
    split_ifs at h with hbad
    obtain rfl := Option.some.inj h
    refine ⟨?_, ?_, ?_⟩
    · have hmark : List.takeWhile (· == c) (c :: cs) =
          List.replicate (List.takeWhile (· == c) (c :: cs)).length c :=
        List.eq_replicate_iff.mpr ⟨rfl, fun d hd => by simpa using List.mem_takeWhile_imp hd⟩
      dsimp only
      rw [← hmark, List.takeWhile_append_dropWhile]
    · simp only [Bool.or_eq_true, not_or, decide_eq_true_eq] at hbad
      dsimp only
      omega
    · simpa [or_comm] using hc

/-- A fence is taken from a mark on its line, and if the line ends with a directive, the mark stands
in front of it. -/
lemma opening_in_front {text : Text} {f : FenceBlock}
    (h : OpensIn (Remainder (((LineTable.ofText text).lineText f.first).map visible))
      f.mark f.info) :
    ∃ n c, (f.opening (LineTable.ofText text)).1 = (LineTable.ofText text).lineStart f.first + n ∧
      ((LineTable.ofText text).lineText f.first)[n]? = some c ∧ (c = '~' ∨ c = '\x60') ∧
      ∀ front d, directiveHead <+: d →
        (LineTable.ofText text).lineText f.first = front ++ d → n < front.length := by
  obtain ⟨content, opening, ⟨hsuffix, hleft⟩, hopening, hmark, -⟩ := h
  obtain ⟨hcontent, hwidth, hc⟩ := fenceOpening_split hopening
  have hmarks : List.replicate opening.width opening.mark <+: content :=
    ⟨opening.info, hcontent.symm⟩
  generalize hline : (LineTable.ofText text).lineText f.first = line at hsuffix hleft ⊢
  -- the content is what the block structure sees of an end of the line
  obtain ⟨front, behind, rfl, hbehind⟩ : ∃ front behind, line = front ++ behind ∧
      behind.map visible = content := by
    obtain ⟨s, hs⟩ := hsuffix
    obtain ⟨front, behind, rfl, -, hbehind⟩ := List.map_eq_append_iff.mp hs.symm
    exact ⟨front, behind, rfl, hbehind⟩
  subst hbehind
  obtain ⟨width, hwidth⟩ := Nat.exists_eq_succ_of_ne_zero hwidth.ne'
  obtain ⟨n, hn, hfound⟩ := exists_firstOffset front (prefix_of_visible hc hmarks)
  have hmarked := firstOffset_stands hfound
  rw [hwidth, List.replicate_succ] at hmarks hmarked
  refine ⟨n, opening.mark, ?_, ?_, hc, fun front' d hd hline' => ?_⟩
  · have hfilled : f.mark.isEmpty = false := by rw [hmark, hwidth, List.replicate_succ]; rfl
    rw [← hmark] at hfound
    rw [FenceBlock.opening, hline, hfilled, if_neg Bool.false_ne_true, hfound]
  · obtain ⟨rest, hrest⟩ := hmarked
    have hhead := congrArg (·[0]?) hrest
    simpa [List.getElem?_drop] using hhead.symm
  · have hend : d.map visible <:+ behind.map visible := by
      refine hleft _ ?_ ?_
      · exact hd.map visible
      · rw [hline', List.map_append]
        exact List.suffix_append _ _
    have hlength := congrArg List.length hline'
    rw [List.length_append, List.length_append] at hlength
    have hle := hend.length_le
    rw [List.length_map, List.length_map] at hle
    -- a directive does not open a fence, so the content is longer
    have hne : d.length ≠ behind.length := by
      intro heq
      have hsame := hend.eq_of_length (by rw [List.length_map, List.length_map, heq])
      obtain ⟨rest, rfl⟩ := hd
      obtain ⟨rest', hrest'⟩ := hmarks
      rw [← hrest'] at hsame
      have hhead : '<' = opening.mark := (List.cons.inj hsame).1
      rcases hc with hc | hc <;> rw [hc] at hhead <;> simp at hhead
    omega

/-- A diagram is replaced by a line that begins as a directive does. -/
lemma replacement_line {text : Text} {found : List (Edit × Diagram)} {e : Edit}
    (h : diagramEdits text = .ok found) (he : e ∈ found.map Prod.fst) :
    ∃ line, e.replacement = line ++ ['\n'] ∧ Plain line ∧ directiveHead <+: line := by
  obtain ⟨d, hd, rfl⟩ := List.mem_map.mp he
  obtain ⟨bs, -, rfl⟩ := diagramEdits_eq_ok h
  obtain ⟨f, -, hf⟩ := exists_fence hd
  rw [hf]
  exact diagramDirective_line d.2.source d.2.options

/-- Directives hold no diagrams: what is taken out of a text without its diagrams begins with the
mark of a fence that stood in the text before. -/
theorem diagramEdits_splice {markdown : Text} {found again : List (Edit × Diagram)}
    (hfound : diagramEdits markdown = .ok found)
    (hagain : diagramEdits (splice markdown (found.map Prod.fst)) = .ok again) :
    ∀ a ∈ again, ∃ c n, (c = '~' ∨ c = '\x60') ∧
      (spliceTraced markdown (found.map Prod.fst))[a.1.start.toNat]? = some ⟨c, .source n⟩ := by
  intro a ha
  have horder := (diagramEdits_fit hfound).orderEdits_eq
  have hfits : Fits 0 markdown.length (orderEdits (found.map Prod.fst)) :=
    horder.symm ▸ diagramEdits_fit hfound
  obtain ⟨bs, hparse, rfl⟩ := diagramEdits_eq_ok hagain
  obtain ⟨f, hf, heq⟩ := exists_fence ha
  obtain ⟨n, c, hopening, hget, hc, hfront⟩ := opening_in_front (fence_remainder hparse hf)
  have hstart : a.1.start.toNat =
      (LineTable.ofText (splice markdown (found.map Prod.fst))).lineStart f.first + n := by
    rw [heq, diagramEdit, hopening]
    rfl
  have hchar := LineTable.getElem?_of_lineText _ hget
  rw [← hstart, ← spliceTraced_chars, List.getElem?_map, Option.map_eq_some_iff] at hchar
  obtain ⟨⟨c', origin⟩, htraced, rfl⟩ := hchar
  cases origin with
  | source p => exact ⟨c', p, hc, htraced⟩
  | edit e =>
      -- the line ends with the directive, and the mark stands in front of it after all
      exfalso
      obtain ⟨before, behind, hsplice, hlow, hhigh⟩ := splice_around hfits htraced
      have hmem := edit_mem_of_mem (List.mem_iff_getElem?.mpr ⟨_, htraced⟩)
      obtain ⟨line, hline, hplain, hhead⟩ := replacement_line hfound (horder ▸ hmem)
      rw [hline, List.append_assoc, List.append_assoc, List.singleton_append] at hsplice
      rw [hline, List.length_append, List.length_singleton] at hhigh
      obtain ⟨front, hfirst, hlength⟩ := LineTable.lineText_of_stretch hsplice hplain
        (List.getElem?_eq_some_iff.mp hget).1.le (by omega) (by omega)
      have := hfront front line hhead hfirst
      omega

/-- The fence in the first note below is found only in the text without the other one, and its mark
was there before. -/
theorem diagramEdits_splice_note :
    let markdown : Text :=
      "[^a]\n\n[^a]: ~~~tikz\n    x\n    ~~~\n\n~~~tikz\na|b\n~~~\n--|--\n[^a]: foo\n".toList
    let found : List (Edit × Diagram) :=
      [(⟨35, 51, diagramDirective "a|b\n".toList {}⟩, ⟨"tikz-0".toList, "a|b\n".toList, {}⟩)]
    let again : List (Edit × Diagram) :=
      [(⟨12, 34, diagramDirective "x\n".toList {}⟩, ⟨"tikz-0".toList, "x\n".toList, {}⟩)]
    diagramEdits markdown = .ok found ∧
      diagramEdits (splice markdown (found.map Prod.fst)) = .ok again ∧
      ∃ c n, (c = '~' ∨ c = '\x60') ∧
        (spliceTraced markdown (found.map Prod.fst))[12]? = some ⟨c, .source n⟩ := by
  intro markdown found again
  have hfound : diagramEdits markdown = .ok found := by decide +kernel
  have hagain : diagramEdits (splice markdown (found.map Prod.fst)) = .ok again := by
    decide +kernel
  exact ⟨hfound, hagain, diagramEdits_splice hfound hagain _ List.mem_cons_self⟩

/-- Diagrams can be left behind. With a bar in its source and a rule below it, a directive is the
head of a table, and the table takes in the note that follows. An earlier note of the same name then
counts again, and the diagram in it is found only now. -/
theorem extractDiagrams_twice :
    let markdown : Text :=
      "[^a]\n\n[^a]: ~~~tikz\n    x\n    ~~~\n\n~~~tikz\na|b\n~~~\n--|--\n[^a]: foo\n".toList
    let once := (extractDiagrams markdown).toOption
    once.map Prod.snd = some [⟨"tikz-0".toList, "a|b\n".toList, {}⟩] ∧
      (once.bind fun r => (extractDiagrams r.1).toOption).map Prod.snd =
        some [⟨"tikz-0".toList, "x\n".toList, {}⟩] := by
  decide +kernel

end Galley
