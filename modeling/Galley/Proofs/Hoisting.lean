import Galley.Proofs.Bodies
import Mathlib.Tactic

/-!
The lines of a diagram in its document. Each line that the template does not replace comes into the
preamble or into the body, in the order of the diagram, and nothing else comes along but what the
template holds.

* `splitLines_plain`: no boundary is left in a line;
* `IsReplaced`, `NeedsPreamble`, `Divided`: where lines belong, and a diagram divided by lines;
* `divided_filter`: the preamble and the body are such a division;
* `IsBare`, `wrapPicture_of_not_bare`: drawing code that is put into a picture;
* `document_divided`: the document as the lines that it is made of.
-/

namespace Galley

/-! ### Lines -/

lemma splitLinesAux_plain {current t : Text} (hcurrent : ∀ c ∈ current, isLineBoundary c = false) :
    ∀ line ∈ splitLinesAux current t, ∀ c ∈ line, isLineBoundary c = false := by
  have hreverse : ∀ {u : Text}, (∀ c ∈ u, isLineBoundary c = false) →
      ∀ c ∈ u.reverse, isLineBoundary c = false := fun hu c hc => hu c (List.mem_reverse.mp hc)
  fun_induction splitLinesAux current t with
  | case1 => simp
  | case2 current hfilled => simpa using hcurrent
  | case3 current cs ih =>
      exact List.forall_mem_cons.mpr ⟨hreverse hcurrent, ih (by simp)⟩
  | case4 current c cs _ hboundary ih =>
      exact List.forall_mem_cons.mpr ⟨hreverse hcurrent, ih (by simp)⟩
  | case5 current c cs _ hboundary ih =>
      exact ih (List.forall_mem_cons.mpr ⟨by simpa using hboundary, hcurrent⟩)

/-- No boundary is left in a line. -/
lemma splitLines_plain (t : Text) :
    ∀ line ∈ splitLines t, ∀ c ∈ line, isLineBoundary c = false :=
  splitLinesAux_plain (by simp)

/-- In particular, no line feed is. -/
lemma feed_notMem_of_splitLines {t line : Text} (h : line ∈ splitLines t) : '\n' ∉ line :=
  fun hfeed => absurd (splitLines_plain t line h '\n' hfeed) (by decide)

namespace Latex

/-! ### Roles -/

/-- The template replaces a line that begins with a bound of the body, spaces aside, and one with a
document class. -/
def IsReplaced (line : Text) : Prop :=
  beginDocument <+: line.trim ∨ endDocument <+: line.trim ∨ documentClass <:+: line

/-- A line holds a command that has to stand in the preamble. -/
def NeedsPreamble (line : Text) : Prop := ∃ command ∈ preambleCommands, command <:+: line

/-- Lines divided into those for the preamble and those for the body. Both are in the order of the
lines, and every line that is not replaced is in one of them. -/
inductive Divided : List Text → List Text → List Text → Prop
  | nil : Divided [] [] []
  | replaced {line : Text} {lines preamble body : List Text} :
      IsReplaced line → Divided lines preamble body → Divided (line :: lines) preamble body
  | preamble {line : Text} {lines preamble body : List Text} :
      ¬IsReplaced line → NeedsPreamble line → Divided lines preamble body →
        Divided (line :: lines) (line :: preamble) body
  | body {line : Text} {lines preamble body : List Text} :
      ¬IsReplaced line → ¬NeedsPreamble line → Divided lines preamble body →
        Divided (line :: lines) preamble (line :: body)

/-- The commands that tell where a line belongs. -/
def placingCommands : List Text := documentClass :: preambleCommands

/-- Spaces at the ends of a line hide none of these commands. -/
lemma infix_trim {command line : Text} (h : command ∈ placingCommands) :
    command <:+: line.trim ↔ command <:+: line := by
  have hsolid := (by decide : ∀ command ∈ placingCommands, command.any isSpace = false) command h
  exact infix_trimBy fun c hc => by simpa using List.any_eq_false.mp hsolid c hc

/-- A line without content is neither replaced nor needed in the preamble. -/
lemma plain_of_trim_eq_nil {line : Text} (h : line.trim = []) :
    ¬IsReplaced line ∧ ¬NeedsPreamble line := by
  have hcommand : ∀ command ∈ placingCommands, ¬command <:+: line := by
    intro command hmem
    rw [← infix_trim hmem, h, List.infix_nil]
    exact (by decide : ∀ command ∈ placingCommands, command ≠ []) command hmem
  refine ⟨?_, fun ⟨command, hmem, hinfix⟩ => hcommand command (List.mem_cons_of_mem _ hmem) hinfix⟩
  rintro (hbegin | hend | hclass)
  · rw [h, List.prefix_nil] at hbegin
    exact absurd hbegin (by decide)
  · rw [h, List.prefix_nil] at hend
    exact absurd hend (by decide)
  · exact hcommand _ List.mem_cons_self hclass

/-- The role of a line says where it belongs. -/
lemma lineRole_spec (line : Text) :
    (lineRole line = .dropped ∧ IsReplaced line) ∨
      (lineRole line = .preamble ∧ ¬IsReplaced line ∧ NeedsPreamble line) ∨
      (lineRole line = .body ∧ ¬IsReplaced line ∧ ¬NeedsPreamble line) := by
  have hneeds : preambleCommands.any (occursIn · line.trim) = true ↔ NeedsPreamble line := by
    rw [List.any_eq_true, NeedsPreamble]
    refine exists_congr fun command => and_congr_right fun hmem => ?_
    rw [← infix_trim (List.mem_cons_of_mem _ hmem), occursIn_eq_true]
  have hclass : occursIn documentClass line.trim = true ↔ documentClass <:+: line := by
    rw [← infix_trim List.mem_cons_self, occursIn_eq_true]
  have hbounds : (beginDocument.isPrefixOf line.trim || endDocument.isPrefixOf line.trim) = true ↔
      beginDocument <+: line.trim ∨ endDocument <+: line.trim := by
    rw [Bool.or_eq_true, List.isPrefixOf_iff_prefix, List.isPrefixOf_iff_prefix]
  have hreplaced : IsReplaced line ↔
      (beginDocument <+: line.trim ∨ endDocument <+: line.trim) ∨ documentClass <:+: line :=
    or_assoc.symm
  rw [lineRole, hreplaced]
  split_ifs with hempty hbound hclass' hneeds'
  · obtain ⟨hkept, hplain⟩ := plain_of_trim_eq_nil (List.isEmpty_iff.mp hempty)
    exact .inr (.inr ⟨rfl, mt hreplaced.mpr hkept, hplain⟩)
  · exact .inl ⟨rfl, .inl (hbounds.mp hbound)⟩
  · exact .inl ⟨rfl, .inr (hclass.mp hclass')⟩
  · have hkept := not_or.mpr ⟨mt hbounds.mpr hbound, mt hclass.mpr hclass'⟩
    exact .inr (.inl ⟨rfl, hkept, hneeds.mp hneeds'⟩)
  · have hkept := not_or.mpr ⟨mt hbounds.mpr hbound, mt hclass.mpr hclass'⟩
    exact .inr (.inr ⟨rfl, hkept, mt hneeds.mpr hneeds'⟩)

/-- The lines of the two roles are a division. -/
lemma divided_filter (lines : List Text) :
    Divided lines (lines.filter fun line => lineRole line == .preamble)
      (lines.filter fun line => lineRole line == .body) := by
  induction lines with
  | nil => exact .nil
  | cons line lines ih =>
      rcases lineRole_spec line with ⟨hrole, h⟩ | ⟨hrole, h, h'⟩ | ⟨hrole, h, h'⟩
      · simpa [hrole] using Divided.replaced h ih
      · simpa [hrole] using Divided.preamble h h' ih
      · simpa [hrole] using Divided.body h h' ih

namespace Divided

variable {lines preamble body : List Text}

lemma of_mem_preamble (h : Divided lines preamble body) {line : Text} (hline : line ∈ preamble) :
    line ∈ lines ∧ NeedsPreamble line := by
  induction h with
  | nil => simp at hline
  | replaced _ _ ih => exact (ih hline).imp_left (List.mem_cons_of_mem _)
  | preamble _ hneeds _ ih =>
      rcases List.mem_cons.mp hline with rfl | hline
      · exact ⟨List.mem_cons_self, hneeds⟩
      · exact (ih hline).imp_left (List.mem_cons_of_mem _)
  | body _ _ _ ih => exact (ih hline).imp_left (List.mem_cons_of_mem _)

lemma of_mem_body (h : Divided lines preamble body) {line : Text} (hline : line ∈ body) :
    line ∈ lines ∧ ∀ command ∈ placingCommands, ¬command <:+: line := by
  induction h with
  | nil => simp at hline
  | replaced _ _ ih => exact (ih hline).imp_left (List.mem_cons_of_mem _)
  | preamble _ _ _ ih => exact (ih hline).imp_left (List.mem_cons_of_mem _)
  | body hkept hneeds _ ih =>
      rcases List.mem_cons.mp hline with rfl | hline
      · refine ⟨List.mem_cons_self, List.forall_mem_cons.mpr ⟨fun hclass => ?_, ?_⟩⟩
        · exact hkept (.inr (.inr hclass))
        · exact fun command hmem hinfix => hneeds ⟨command, hmem, hinfix⟩
      · exact (ih hline).imp_left (List.mem_cons_of_mem _)

end Divided

/-! ### Texts of lines -/

lemma endLine_concat (t : Text) : endLine (t ++ ['\n']) = t ++ ['\n'] := by
  simp [endLine]

/-- Lines of which none is empty lack one line feed when they are joined. -/
lemma endLine_joinWith {lines : List Text} (hne : lines ≠ [])
    (h : ∀ line ∈ lines, line ≠ [] ∧ '\n' ∉ line) :
    endLine (joinWith ['\n'] lines) = unlines lines := by
  rw [endLine, if_neg, joinWith_append_feed hne]
  intro hlast
  obtain ⟨u, hu⟩ := List.getLast?_eq_some_iff.mp (beq_iff_eq.mp hlast)
  have hcut : splitAt (· == '\n') (joinWith ['\n'] lines) = lines :=
    splitAt_joinWith rfl hne fun line hline => ne_feed (h line hline).2
  rw [hu, splitAt_append_cons rfl] at hcut
  have hmem : [] ∈ lines := hcut ▸ List.mem_append_right _ (List.mem_singleton_self _)
  exact (h _ hmem).1 rfl

lemma preamblePart_unlines (lines : List Text) : preamblePart (unlines lines) = unlines lines := by
  rcases eq_or_ne lines [] with rfl | hne
  · rfl
  · rw [preamblePart, ← joinWith_append_feed hne, endLine_concat, if_neg (by simp)]

/-- The lines of the preamble, as a text. -/
lemma preamble_eq {source : Text} {preamble body : List Text}
    (h : Divided (splitLines source) preamble body) :
    preamblePart (joinWith ['\n'] preamble) = unlines preamble := by
  rcases eq_or_ne preamble [] with rfl | hne
  · rfl
  have hlines : ∀ line ∈ preamble, line ≠ [] ∧ '\n' ∉ line := by
    intro line hline
    obtain ⟨hmem, command, hcommand, hinfix⟩ := h.of_mem_preamble hline
    refine ⟨?_, feed_notMem_of_splitLines hmem⟩
    rintro rfl
    rw [List.infix_nil] at hinfix
    exact (by decide : ∀ command ∈ preambleCommands, command ≠ []) command hcommand hinfix
  have hfilled : joinWith ['\n'] preamble ≠ [] := by
    obtain ⟨line, rest, rfl⟩ := List.exists_cons_of_ne_nil hne
    rw [joinWith_cons]
    exact List.append_ne_nil_of_left_ne_nil (hlines line List.mem_cons_self).1 _
  rw [preamblePart, if_neg (by simpa using hfilled), endLine_joinWith hne hlines]

/-! ### Pictures -/

/-- Drawing code that is not put into a picture: it has no content, or a bound of a picture. -/
def IsBare (code : Text) : Prop :=
  code.isVoid = true ∨ beginPicture <:+: code ∨ endPicture <:+: code

lemma isBare_iff (code : Text) :
    (occursIn beginPicture code || occursIn endPicture code || code.isVoid) = true ↔
      IsBare code := by
  rw [Bool.or_eq_true, Bool.or_eq_true, occursIn_eq_true, occursIn_eq_true, IsBare, or_comm]

lemma wrapPicture_of_bare {code : Text} (h : IsBare code) : wrapPicture code = code := by
  rw [wrapPicture, if_pos ((isBare_iff code).mpr h)]

/-- Other code is put between the bounds of a picture, and these stand there once. -/
lemma wrapPicture_of_not_bare {lines : List Text} (h : ¬IsBare (joinWith ['\n'] lines)) :
    wrapPicture (joinWith ['\n'] lines) = unlines (beginPicture :: (lines ++ [endPicture])) ∧
      places beginPicture (wrapPicture (joinWith ['\n'] lines)) = 1 ∧
      places endPicture (wrapPicture (joinWith ['\n'] lines)) = 1 := by
  set code := joinWith ['\n'] lines with hcode
  have hne : lines ≠ [] := by
    rintro rfl
    exact h (.inl rfl)
  have htext : wrapPicture code =
      beginPicture ++ '\n' :: (code ++ '\n' :: (endPicture ++ ['\n'])) := by
    rw [wrapPicture, if_neg (mt (isBare_iff code).mp h)]
  have hcount : ∀ piece, piece ≠ [] → '\n' ∉ piece → ¬piece <:+: code →
      places piece (wrapPicture code) = places piece beginPicture + places piece endPicture := by
    intro piece hpiece hfeed hcode
    have hnone : places piece code = 0 := places_eq_zero.mpr (occursIn_eq_false.mpr hcode)
    rw [htext, places_append_cons hpiece hfeed, places_append_cons hpiece hfeed,
      places_append_cons hpiece hfeed, places_nil hpiece, hnone]
    omega
  simp only [IsBare, not_or] at h
  refine ⟨?_, ?_, ?_⟩
  · rw [htext, unlines_cons, unlines_append, ← joinWith_append_feed hne]
    simp [unlines, hcode]
  · rw [hcount _ (by decide) (by decide) h.2.1]
    decide
  · rw [hcount _ (by decide) (by decide) h.2.2]
    decide

/-- A piece without a line feed that is in no line of a body is not in the body either. -/
lemma not_infix_wrapPicture {piece : Text} {lines : List Text} (hpiece : piece ≠ [])
    (hfeed : '\n' ∉ piece) (hbegin : places piece beginPicture = 0)
    (hend : places piece endPicture = 0) (h : ∀ line ∈ lines, ¬piece <:+: line) :
    ¬piece <:+: wrapPicture (joinWith ['\n'] lines) := by
  rw [← occursIn_eq_false, ← places_eq_zero, places_wrapPicture hpiece hfeed hbegin hend,
    places_joinWith hpiece hfeed, List.sum_eq_zero_iff]
  exact List.forall_mem_map.mpr fun line hline =>
    places_eq_zero.mpr (occursIn_eq_false.mpr (h line hline))

/-! ### Documents -/

/-- The lines that the template holds. -/
def templateLines : List Text :=
  splitAt (· == '\n') basePreamble ++ [beginDocument, endDocument, beginPicture, endPicture]

/-- Behind a text whose last line is ended, the lines of another one follow. -/
lemma mem_splitAt_endLine {line t v : Text} (h : line ∈ splitAt (· == '\n') (endLine t ++ v)) :
    line ∈ splitAt (· == '\n') t ∨ line ∈ splitAt (· == '\n') v := by
  obtain ⟨u, hline, rfl | rfl⟩ := endLine_eq t
  · rwa [hline, List.append_assoc, List.singleton_append, splitAt_append_cons rfl,
      List.mem_append] at h
  · rw [hline, List.append_assoc, List.singleton_append, splitAt_append_cons rfl,
      List.mem_append] at h
    rw [splitAt_append_cons rfl]
    exact h.imp_left (List.mem_append_left _)

lemma mem_splitAt_preamblePart {line t v : Text}
    (h : line ∈ splitAt (· == '\n') (preamblePart t ++ v)) :
    line ∈ splitAt (· == '\n') t ∨ line ∈ splitAt (· == '\n') v := by
  rw [preamblePart] at h
  split_ifs at h
  · exact .inr h
  · exact mem_splitAt_endLine h

/-- A body holds its lines, and maybe the bounds of a picture. -/
lemma mem_splitAt_wrapPicture {line : Text} {lines : List Text}
    (hlines : ∀ line ∈ lines, '\n' ∉ line)
    (h : line ∈ splitAt (· == '\n') (wrapPicture (joinWith ['\n'] lines))) :
    line = [] ∨ line ∈ lines ∨ line ∈ templateLines := by
  by_cases hbare : IsBare (joinWith ['\n'] lines)
  · rw [wrapPicture_of_bare hbare] at h
    rcases eq_or_ne lines [] with rfl | hne
    · exact .inl (List.mem_singleton.mp h)
    · rw [splitAt_joinWith rfl hne fun line hline => ne_feed (hlines line hline)] at h
      exact .inr (.inl h)
  · have hframed : ∀ line ∈ beginPicture :: (lines ++ [endPicture]), '\n' ∉ line := by
      intro line hline
      simp only [List.mem_cons, List.mem_append, List.not_mem_nil, or_false] at hline
      rcases hline with rfl | hline | rfl
      · decide
      · exact hlines line hline
      · decide
    have htext := splitAt_unlines_append hframed []
    rw [List.append_nil] at htext
    rw [(wrapPicture_of_not_bare hbare).1, htext] at h
    have htemplate : ∀ bound ∈ [beginPicture, endPicture], bound ∈ templateLines := fun bound h =>
      List.mem_append_right _ (List.mem_cons_of_mem _ (List.mem_cons_of_mem _ h))
    rcases List.mem_append.mp h with h | h
    · rcases List.mem_cons.mp h with rfl | h
      · exact .inr (.inr (htemplate _ (by simp)))
      · rcases List.mem_append.mp h with h | h
        · exact .inr (.inl h)
        · exact .inr (.inr (htemplate _ (List.mem_cons_of_mem _ h)))
    · exact .inl (List.mem_singleton.mp h)

end Latex

open Latex

/-- A document holds the lines of a diagram, the preamble option and what the template holds. -/
lemma mem_splitAt_document {d : Diagram} {preamble body : List Text} {line : Text}
    (hfeed : ∀ line ∈ preamble ++ body, '\n' ∉ line)
    (hfront : (splitSource d.source).1 = unlines preamble)
    (hback : (splitSource d.source).2 = wrapPicture (joinWith ['\n'] body))
    (h : line ∈ splitAt (· == '\n') d.document) :
    line = [] ∨ line ∈ preamble ∨ line ∈ body ∨
      (∃ t ∈ d.options.preamble, line ∈ splitAt (· == '\n') t) ∨ line ∈ templateLines := by
  have hbound : ∀ bound ∈ [beginDocument, endDocument],
      splitAt (· == '\n') bound = [bound] ∧ bound ∈ templateLines := by
    intro bound hbound
    have hplain := (by decide : ∀ bound ∈ [beginDocument, endDocument], '\n' ∉ bound) bound hbound
    exact ⟨splitAt_of_forall (ne_feed hplain), List.mem_append_right _
      (List.mem_append_left [beginPicture, endPicture] hbound)⟩
  have hbegin := hbound beginDocument (by simp)
  have hend := hbound endDocument (by simp)
  rw [d.document_eq, hfront, preamblePart_unlines] at h
  rcases mem_splitAt_endLine h with h | h
  · exact .inr (.inr (.inr (.inr (List.mem_append_left _ h))))
  rcases mem_splitAt_preamblePart h with h | h
  · cases hoption : d.options.preamble with
    | none =>
        rw [hoption] at h
        exact .inl (List.mem_singleton.mp h)
    | some t =>
        rw [hoption] at h
        exact .inr (.inr (.inr (.inl ⟨t, rfl, h⟩)))
  rw [splitAt_unlines_append fun line h => hfeed line (List.mem_append_left _ h),
    List.mem_append] at h
  rcases h with h | h
  · exact .inr (.inl h)
  rcases mem_splitAt_endLine h with h | h
  · rw [hbegin.1, List.mem_singleton] at h
    exact .inr (.inr (.inr (.inr (h ▸ hbegin.2))))
  rcases mem_splitAt_endLine h with h | h
  · rw [hback] at h
    rcases mem_splitAt_wrapPicture (fun line h => hfeed line (List.mem_append_right _ h)) h
      with h | h | h
    · exact .inl h
    · exact .inr (.inr (.inl h))
    · exact .inr (.inr (.inr (.inr h)))
  · rw [← List.append_nil (endLine endDocument)] at h
    rcases mem_splitAt_endLine h with h | h
    · rw [hend.1, List.mem_singleton] at h
      exact .inr (.inr (.inr (.inr (h ▸ hend.2))))
    · exact .inl (List.mem_singleton.mp h)

/-- The document of a diagram, made of the lines for its preamble and those for its body. -/
structure MadeOf (d : Diagram) (preamble body : List Text) : Prop where
  divided : Divided (splitLines d.source) preamble body
  feed_free : ∀ line ∈ preamble ++ body, '\n' ∉ line
  front : (splitSource d.source).1 = unlines preamble
  bare : IsBare (joinWith ['\n'] body) → (splitSource d.source).2 = joinWith ['\n'] body
  picture : ¬IsBare (joinWith ['\n'] body) →
    (splitSource d.source).2 = unlines (beginPicture :: (body ++ [endPicture])) ∧
      places beginPicture (splitSource d.source).2 = 1 ∧
      places endPicture (splitSource d.source).2 = 1
  placed : ∀ command ∈ placingCommands, ¬command <:+: (splitSource d.source).2
  text : d.document = basePreamble ++ preamblePart (d.options.preamble.getD []) ++
    unlines preamble ++ beginDocument ++
      '\n' :: (endLine (splitSource d.source).2 ++ endDocument ++ ['\n'])
  lines : ∀ line ∈ splitAt (· == '\n') d.document, line = [] ∨ line ∈ preamble ∨ line ∈ body ∨
    (∃ t ∈ d.options.preamble, line ∈ splitAt (· == '\n') t) ∨ line ∈ templateLines

/-- Every line of a diagram that the template does not replace is in the preamble of its document
or in the body. -/
theorem document_divided (d : Diagram) : ∃ preamble body, MadeOf d preamble body := by
  set preamble := linesFor .preamble d.source
  set body := linesFor .body d.source
  have hdivided : Divided (splitLines d.source) preamble body := divided_filter _
  have hfeed : ∀ line ∈ preamble ++ body, '\n' ∉ line := by
    intro line hline
    rcases List.mem_append.mp hline with hline | hline
    · exact feed_notMem_of_splitLines (hdivided.of_mem_preamble hline).1
    · exact feed_notMem_of_splitLines (hdivided.of_mem_body hline).1
  have hfront : (splitSource d.source).1 = unlines preamble := preamble_eq hdivided
  have hback : (splitSource d.source).2 = wrapPicture (joinWith ['\n'] body) := rfl
  have htext : d.document = basePreamble ++ preamblePart (d.options.preamble.getD []) ++
      preamblePart (splitSource d.source).1 ++ beginDocument ++
        '\n' :: (endLine (splitSource d.source).2 ++ endDocument ++ ['\n']) := rfl
  rw [hfront, preamblePart_unlines] at htext
  refine ⟨preamble, body, hdivided, hfeed, hfront, fun h => ?_, fun h => ?_, fun command h => ?_,
    htext, fun line hline => ?_⟩
  · rw [hback, wrapPicture_of_bare h]
  · rw [hback]
    exact wrapPicture_of_not_bare h
  · obtain ⟨hfilled, hplain, hbegin, hend⟩ := (by decide : ∀ command ∈ placingCommands,
      command ≠ [] ∧ '\n' ∉ command ∧ places command beginPicture = 0 ∧
        places command endPicture = 0) command h
    exact not_infix_wrapPicture hfilled hplain hbegin hend fun line hline =>
      (hdivided.of_mem_body hline).2 command h
  · exact mem_splitAt_document hfeed hfront hback hline

end Galley
