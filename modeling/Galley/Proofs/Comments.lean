import Galley.Proofs.Numerals
import Galley.Proofs.Pieces
import Mathlib.Tactic

/-!
Where the comment of a directive ends. A reader of the markdown ends a comment at the first `-->`,
and the texts of a diagram come into the comment by ways of their own: in string literals, as a
number, or as a word.

* `commentEnd_escapeString`, `commentEnd_scaleArgument`: an end of a comment comes through on both
  ways, and neither of them makes one;
* `commentEnd_diagramArguments`: so the arguments hold an end exactly if the source or an option
  does;
* `diagramDirective_ends`: a directive ends its comment where it should, exactly if none of its
  texts holds an end;
* `diagramDirective_ends_early`: one that does not.
-/

namespace Galley

/-! ### Texts in a directive -/

/-- What ends a comment. -/
def commentEnd : Text := "-->".toList

lemma escapeChar_cases (c : Char) :
    escapeChar c = [c] ∨ c ∉ commentEnd ∧ ∃ d, escapeChar c = ['\\', d] ∧ d ∉ commentEnd := by
  unfold escapeChar
  split
  iterate 5 exact Or.inr ⟨by decide, _, rfl, by decide⟩
  exact Or.inl rfl

lemma prefix_escapeString {piece t : Text} (hpiece : piece ⊆ commentEnd) :
    piece <+: escapeString t ↔ piece <+: t := by
  induction t generalizing piece with
  | nil => rfl
  | cons c t ih =>
      cases piece with
      | nil => simp
      | cons d ds =>
          obtain ⟨hd, hds⟩ := List.cons_subset.mp hpiece
          have hcons : escapeString (c :: t) = escapeChar c ++ escapeString t := rfl
          rw [hcons]
          rcases escapeChar_cases c with hc | ⟨hc, e, he, -⟩
          · rw [hc, List.singleton_append, List.cons_prefix_cons, List.cons_prefix_cons, ih hds]
          · have hne : d ≠ '\\' ∧ d ≠ c := by
              refine ⟨?_, fun h => hc (h ▸ hd)⟩
              rintro rfl
              revert hd
              decide
            rw [he, List.cons_append, List.cons_prefix_cons, List.cons_prefix_cons]
            simp [hne]

/-- Escaping neither hides an end of a comment nor makes one. -/
lemma commentEnd_escapeString (t : Text) :
    commentEnd <:+: escapeString t ↔ commentEnd <:+: t := by
  induction t with
  | nil => rfl
  | cons c t ih =>
      have hcons : escapeString (c :: t) = escapeChar c ++ escapeString t := rfl
      rcases escapeChar_cases c with hc | ⟨hc, e, he, hnot⟩
      · have hprefix := prefix_escapeString (t := c :: t) (List.Subset.refl commentEnd)
        rw [hcons, hc, List.singleton_append] at hprefix ⊢
        rw [List.infix_cons_iff, List.infix_cons_iff, hprefix, ih]
      · rw [hcons, he, List.cons_append, List.singleton_append,
          infix_cons_of_notMem (by decide), infix_cons_of_notMem hnot, infix_cons_of_notMem hc, ih]

lemma commentEnd_stringLiteral (t : Text) :
    commentEnd <:+: stringLiteral t ↔ commentEnd <:+: t := by
  rw [stringLiteral, infix_cons_of_notMem (by decide), infix_append_cons (by decide),
    commentEnd_escapeString]
  exact or_iff_left (by decide)

lemma not_commentEnd {t : Text} (h : '>' ∉ t) : ¬commentEnd <:+: t := fun hend =>
  h (hend.subset (by decide))

/-- A text with an angle bracket is none of the words that stand for themselves. -/
lemma foldWord_ne {t word : Text} (h : '>' ∈ t) (hword : '>' ∉ word) : foldWord t ≠ word := by
  rintro rfl
  exact hword (List.mem_map.mpr ⟨'>', h, by decide⟩)

/-- A scale holds an end of a comment exactly if it was written with one. -/
lemma commentEnd_scaleArgument (raw : Text) :
    commentEnd <:+: scaleArgument raw ↔ commentEnd <:+: raw := by
  have hsolid : commentEnd.all (fun c => isSpace c == false) = true := by decide
  have htrim : commentEnd <:+: raw.trim ↔ commentEnd <:+: raw :=
    infix_trimBy fun c hc => eq_of_beq (List.all_eq_true.mp hsolid c hc)
  rw [← htrim, scaleArgument]
  generalize raw.trim = trimmed
  by_cases hbracket : '>' ∈ trimmed
  · -- then it is neither a word nor a number
    have hfilled : trimmed.isEmpty = false :=
      List.isEmpty_eq_false_iff.mpr (List.ne_nil_of_mem hbracket)
    rw [hfilled, if_neg, if_neg (foldWord_ne hbracket (by decide)),
      readNumber_eq_none (isForeign_of_mem (by decide)) hbracket]
    · exact commentEnd_stringLiteral trimmed
    · simpa using foldWord_ne hbracket (by decide)
  · refine iff_of_false ?_ (not_commentEnd hbracket)
    split_ifs
    · decide
    · decide
    · split
      · split_ifs
        · exact not_commentEnd fun h => absurd (numberArgument_subset _ h) (by decide)
        · exact fun h => not_commentEnd hbracket ((commentEnd_stringLiteral trimmed).mp h)
      · exact fun h => not_commentEnd hbracket ((commentEnd_stringLiteral trimmed).mp h)

lemma not_commentEnd_of_isVoid {t : Text} (h : t.isVoid = true) : ¬commentEnd <:+: t := by
  refine not_commentEnd fun hmem => ?_
  have := List.all_eq_true.mp h _ hmem
  revert this
  decide

lemma commentEnd_joinWith (pieces : List Text) :
    commentEnd <:+: joinWith ", ".toList pieces ↔ ∃ p ∈ pieces, commentEnd <:+: p := by
  induction pieces with
  | nil => decide
  | cons p ps ih =>
      cases ps with
      | nil => simp [joinWith, List.intercalate]
      | cons q qs =>
          have hseparator : ∀ t, ", ".toList ++ t = ',' :: ' ' :: t := fun _ => rfl
          rw [joinWith_cons_cons, hseparator, infix_append_cons (by decide), infix_cons_of_notMem (by decide), ih]
          simp

/-- An argument with a name holds an end of a comment exactly if the text of its value does. -/
lemma commentEnd_named (front : Text) {name value t : Text} (hname : name = front ++ [' '])
    (hfront : '>' ∉ front) (hvalue : commentEnd <:+: value ↔ commentEnd <:+: t) :
    (∃ a ∈ [name ++ value], commentEnd <:+: a) ↔ ∃ s ∈ [t], commentEnd <:+: s := by
  simp only [List.mem_singleton, exists_eq_left]
  rw [← hvalue, hname, List.append_assoc, List.singleton_append, infix_append_cons (by decide)]
  exact or_iff_right (not_commentEnd hfront)

/-- The texts that come into the directive of a diagram. -/
def diagramTexts (source : Text) (options : DiagramOptions) : List Text :=
  [source] ++ options.scale.toList ++ options.preamble.toList ++ options.format.toList

/-- The arguments of a diagram hold an end of a comment exactly if one of its texts does. -/
lemma commentEnd_diagramArguments (source : Text) (options : DiagramOptions) :
    (∃ a ∈ diagramArguments source options, commentEnd <:+: a) ↔
      ∃ t ∈ diagramTexts source options, commentEnd <:+: t := by
  rw [diagramArguments, diagramTexts, exists_mem_append, exists_mem_append,
    exists_mem_append, exists_mem_append, exists_mem_append, exists_mem_append]
  refine or_congr (or_congr (or_congr ?_ ?_) ?_) ?_
  · exact commentEnd_named "diagram:".toList rfl (by decide) (commentEnd_stringLiteral source)
  · cases options.scale with
    | none => exact Iff.rfl
    | some scale =>
        dsimp only
        split_ifs with hvoid
        · simp [not_commentEnd_of_isVoid hvoid]
        · exact commentEnd_named "scale:".toList rfl (by decide) (commentEnd_scaleArgument scale)
  · cases options.preamble with
    | none => exact Iff.rfl
    | some preamble =>
        exact commentEnd_named "preamble:".toList rfl (by decide)
          (commentEnd_stringLiteral preamble)
  · cases options.format with
    | none => exact Iff.rfl
    | some format =>
        dsimp only
        split_ifs with hempty
        · rw [List.isEmpty_iff.mp hempty]
          decide
        · exact commentEnd_named "format:".toList rfl (by decide) (commentEnd_stringLiteral format)

/-! ### Directives as comments -/

/-- What stands in front of the arguments of a diagram. -/
def directiveFront : Text := "<!--raw-typst #tikz_render".toList

/-- A directive ends its comment at its own end, and not before, exactly if none of the texts in it
holds an end of a comment. -/
theorem diagramDirective_ends (source : Text) (options : DiagramOptions) :
    firstOffset? commentEnd (diagramDirective source options) =
        some ((diagramDirective source options).length - 4) ↔
      ∀ t ∈ diagramTexts source options, occursIn commentEnd t = false := by
  have harguments := (commentEnd_joinWith _).trans (commentEnd_diagramArguments source options)
  have hsplit : diagramDirective source options =
      (directiveFront ++ '(' :: (joinWith ", ".toList (diagramArguments source options) ++ [')'])) ++
        ' ' :: (commentEnd ++ ['\n']) := by
    unfold diagramDirective directive directiveFront commentEnd
    simp
  have hlength : (diagramDirective source options).length - 4 =
      (directiveFront ++ '(' :: (joinWith ", ".toList (diagramArguments source options) ++
        [')'])).length + 1 := by
    rw [hsplit, List.length_append, List.length_cons]
    rfl
  rw [hlength, hsplit, firstOffset_append_cons (by decide) (List.prefix_append _ _),
    infix_append_cons (by decide), infix_append_cons (by decide), harguments]
  have hfront : ¬commentEnd <:+: directiveFront := by decide
  have hnil : ¬commentEnd <:+: [] := by decide
  simp [hfront, hnil, occursIn_eq_false]

/-- A source with an arrow ends the comment early: the directive goes on as text. -/
theorem diagramDirective_ends_early :
    diagramDirective "a --> b".toList {} =
        "<!--raw-typst #tikz_render(diagram: \"a --> b\") -->\n".toList ∧
      firstOffset? commentEnd (diagramDirective "a --> b".toList {}) = some 39 ∧
      (diagramDirective "a --> b".toList {}).length - 4 = 47 := by
  decide +kernel

end Galley
