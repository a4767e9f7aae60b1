import Galley.Proofs.Options
import Galley.Proofs.Words
import Mathlib.Logic.Relation
import Mathlib.Tactic

/-!
Info strings, from their words. What stands between words does not matter, and of the words only
those that give options, and of these only the last one for each name.

* `Fence.IsGap`, `Fence.IsInfo`: words with runs of separators around and between them;
* `Fence.IsInfo.words`: these are the words that are read, without the spaces at their ends;
* `Fence.words_trim`: spaces at the ends of an info string do not matter;
* `Fence.valueFor?`, `Fence.foldl_setOption_trim`: the options are the last values for their names;
* `Fence.Rearranged`, `Fence.diagramOptions?_of_isInfo`: words that are put in another order or left
  out, and that this changes no option.
-/

namespace Galley

namespace Fence

/-! ### Words and gaps -/

/-- A run of separators. -/
def IsGap (t : Text) : Prop := ∀ c ∈ t, isSeparator c = true

instance (t : Text) : Decidable (IsGap t) :=
  decidable_of_iff (t.all isSeparator = true) List.all_eq_true

instance (w : Text) : Decidable (IsWord w) :=
  decidable_of_iff (w ≠ [] ∧ scanWord? none w = some none)
    ⟨fun h => ⟨h.1, h.2⟩, fun h => ⟨h.filled, h.scanned⟩⟩

/-- Words with runs of separators behind them, where only the last one may be empty. -/
inductive Spaced : List Text → Text → Prop
  | last {w : Text} (gap : Text) : IsWord w → IsGap gap → Spaced [w] (w ++ gap)
  | next {w t : Text} {ws : List Text} (gap : Text) :
      IsWord w → IsGap gap → gap ≠ [] → Spaced ws t → Spaced (w :: ws) (w ++ (gap ++ t))

/-- An info string: words with runs of separators around and between them. -/
inductive IsInfo (ws : List Text) : Text → Prop
  | mk {t : Text} (gap : Text) : IsGap gap → Spaced ws t → IsInfo ws (gap ++ t)

/-- A separator in front opens no word. -/
lemma words_cons {c : Char} (hc : isSeparator c = true) (t : Text) : words (c :: t) = words t := by
  rw [words, wordsAux_separator hc]
  rfl

lemma words_gap_append {gap : Text} (h : IsGap gap) (t : Text) : words (gap ++ t) = words t := by
  induction gap with
  | nil => rfl
  | cons c gap ih =>
      obtain ⟨hc, hgap⟩ := List.forall_mem_cons.mp h
      rw [List.cons_append, words_cons hc, ih hgap]

/-- A word with a run of separators behind it. -/
lemma words_word_gap {w gap : Text} (hw : IsWord w) (hgap : IsGap gap) (hne : gap ≠ [])
    (t : Text) : words (w ++ (gap ++ t)) = w.trim :: words t := by
  cases gap with
  | nil => exact absurd rfl hne
  | cons c gap =>
      obtain ⟨hc, hgap⟩ := List.forall_mem_cons.mp hgap
      rw [List.cons_append, words_append hw hc, words_gap_append hgap]

lemma Spaced.words {ws : List Text} {t : Text} (h : Spaced ws t) :
    words t = ws.map Text.trim := by
  induction h with
  | last gap hw hgap =>
      rcases eq_or_ne gap [] with rfl | hne
      · rw [List.append_nil, words_of_isWord hw, List.map_singleton]
      · rw [← List.append_nil gap, words_word_gap hw hgap hne]
        rfl
  | next gap hw hgap hne _ ih => rw [words_word_gap hw hgap hne, ih, List.map_cons]

/-- The words of an info string are read, whatever separators stand around them. -/
lemma IsInfo.words {ws : List Text} {info : Text} (h : IsInfo ws info) :
    words info = ws.map Text.trim := by
  obtain ⟨gap, hgap, hspaced⟩ := h
  rw [words_gap_append hgap, hspaced.words]

lemma addWord_space {c : Char} (hc : isSpace c = true) (current : Text) (rest : List Text) :
    addWord (c :: current) rest = addWord current rest := by
  rw [addWord, addWord, List.reverse_cons, Text.trim, Text.trim, trimBy_concat hc]

/-- A space at the end changes no word: it ends a word that ends there anyway, or it is cut off the
end of a word. -/
lemma wordsAux_concat {c : Char} (hc : isSpace c = true) (quote : Option Char) (current t : Text) :
    wordsAux quote current (t ++ [c]) = wordsAux quote current t := by
  have hseparator : isSeparator c = true := by simp [isSeparator, hc]
  obtain ⟨hbackslash, hquote⟩ := plain_of_isSeparator hseparator
  fun_induction wordsAux quote current t with
  | case1 quote current =>
      rw [List.nil_append, wordsAux_cons hbackslash, if_neg hquote]
      split_ifs
      · rfl
      · rw [wordsAux, addWord_space hc]
  | case2 quote current d ds ih =>
      rw [List.cons_append, List.cons_append, wordsAux, ih]
  | case3 quote current d ds hescape hq ih =>
      have hd : d ≠ '\\' := by rintro rfl; revert hq; decide
      rw [List.cons_append, wordsAux_cons hd, if_pos hq, ih]
  | case4 quote current d ds hescape hq hs ih =>
      have hd : d ≠ '\\' := (plain_of_isSeparator ((Bool.and_eq_true _ _).mp hs).2).1
      rw [List.cons_append, wordsAux_cons hd, if_neg hq, if_pos hs, ih]
  | case5 quote current d ds hescape hq hs ih =>
      by_cases hd : d = '\\'
      · -- the backslash at the end takes the space with it
        cases ds with
        | nil => rw [List.singleton_append, hd, wordsAux, wordsAux, wordsAux, addWord_space hc]
        | cons e es => exact absurd rfl (hescape e es hd)
      · rw [List.cons_append, wordsAux_cons hd, if_neg hq, if_neg hs, ih]

/-- Spaces at the ends of an info string do not matter. -/
lemma words_trim (info : Text) : words info.trim = words info := by
  obtain ⟨front, back, hinfo, hfront, hback⟩ := exists_trimBy isSpace info
  have hgap : IsGap front := fun c hc => by simp [isSeparator, hfront c hc]
  have hends : ∀ back : Text, (∀ c ∈ back, isSpace c = true) →
      words (info.trim ++ back) = words info.trim := by
    intro back hback
    induction back using List.reverseRecOn with
    | nil => rw [List.append_nil]
    | append_singleton back c ih =>
        rw [List.forall_mem_append] at hback
        rw [← List.append_assoc, Fence.words, wordsAux_concat (hback.2 c (by simp)), ← ih hback.1,
          Fence.words]
  calc words info.trim = words (info.trim ++ back) := (hends back hback).symm
    _ = words (front ++ (info.trim ++ back)) := (words_gap_append hgap _).symm
    _ = words info := congrArg words hinfo.symm

/-! ### Options -/

/-- The name that a word gives a value for, without punctuation and case. -/
def wordKey? (w : Text) : Option Text := (option? w.trim).map Prod.fst

/-- The value that a word gives for a name. -/
def valueIn? (name w : Text) : Option Text :=
  (option? w.trim).bind fun (key, value) => if key = name then some value else none

/-- The last value that is given for a name. -/
def valueFor? (name : Text) (ws : List Text) : Option Text := ws.reverse.findSome? (valueIn? name)

lemma valueFor?_append (name : Text) (ws ws' : List Text) :
    valueFor? name (ws ++ ws') = (valueFor? name ws').or (valueFor? name ws) := by
  rw [valueFor?, List.reverse_append, List.findSome?_append, valueFor?, valueFor?]

lemma valueFor?_singleton (name w : Text) : valueFor? name [w] = valueIn? name w := by
  rw [valueFor?, List.reverse_singleton, List.findSome?_singleton]

/-- A word gives a value for its own name only. -/
lemma valueIn?_isSome {name w : Text} : (valueIn? name w).isSome ↔ wordKey? w = some name := by
  rw [valueIn?, wordKey?]
  cases option? w.trim with
  | none => simp
  | some option =>
      dsimp only [Option.bind_some, Option.map_some]
      split_ifs with hkey <;> simp [hkey]

lemma valueIn?_eq_none {name w : Text} (h : wordKey? w ≠ some name) : valueIn? name w = none := by
  rw [← Option.not_isSome_iff_eq_none, valueIn?_isSome]
  exact h

/-- The options are the last values for their names. -/
lemma foldl_setOption_trim (ws : List Text) :
    (ws.map Text.trim).foldl setOption {} =
      { scale := valueFor? "scale".toList ws
        preamble := valueFor? "preamble".toList ws
        format := valueFor? "format".toList ws } := by
  obtain ⟨hpreamble, hformat, hboth⟩ : "preamble".toList ≠ "scale".toList ∧
      "format".toList ≠ "scale".toList ∧ "format".toList ≠ "preamble".toList := by decide
  induction ws using List.reverseRecOn with
  | nil => rfl
  | append_singleton ws w ih =>
      rw [List.map_append, List.foldl_append, ih, List.map_singleton, List.foldl_cons,
        List.foldl_nil, setOption, valueFor?_append, valueFor?_append, valueFor?_append,
        valueFor?_singleton, valueFor?_singleton, valueFor?_singleton, valueIn?, valueIn?, valueIn?]
      generalize "scale".toList = s at *
      generalize "preamble".toList = p at *
      generalize "format".toList = f at *
      cases option? w.trim with
      | none => rfl
      | some option =>
          obtain ⟨key, value⟩ := option
          dsimp only [Option.bind_some]
          split_ifs <;> simp_all

/-! ### Words in another order, and fewer of them -/

/-- Words that are put in another order or left out, so that the options stay the same. -/
inductive Rearranged : List Text → List Text → Prop
  /-- The words for one option keep their order. -/
  | permuted {ws ws' : List Text} : ws.Perm ws' →
      (∀ name ∈ optionNames, ws.filter (wordKey? · = some name) =
        ws'.filter (wordKey? · = some name)) → Rearranged ws ws'
  /-- A word without an equals sign is left out. -/
  | plain {front back : List Text} {w : Text} : '=' ∉ w →
      Rearranged (front ++ w :: back) (front ++ back)
  /-- A word that names no option is left out. -/
  | unknown {front back : List Text} {w name : Text} : wordKey? w = some name →
      name ∉ optionNames → Rearranged (front ++ w :: back) (front ++ back)
  /-- A word whose name occurs again is left out. -/
  | overridden {front back : List Text} {w w' : Text} : w' ∈ back → (wordKey? w).isSome →
      wordKey? w' = wordKey? w → Rearranged (front ++ w :: back) (front ++ back)

/-- Only the words for a name tell its value. -/
lemma valueFor?_filter (name : Text) (ws : List Text) :
    valueFor? name (ws.filter (wordKey? · = some name)) = valueFor? name ws := by
  induction ws using List.reverseRecOn with
  | nil => rfl
  | append_singleton ws w ih =>
      rw [List.filter_append, valueFor?_append, valueFor?_append, ih]
      by_cases hkey : wordKey? w = some name
      · rw [List.filter_singleton, decide_eq_true hkey, cond_true]
      · rw [List.filter_singleton, decide_eq_false hkey, cond_false, valueFor?_singleton,
          valueIn?_eq_none hkey]
        rfl

lemma valueFor?_drop {name w : Text} {front back : List Text}
    (h : valueIn? name w = none ∨ (valueFor? name back).isSome) :
    valueFor? name (front ++ w :: back) = valueFor? name (front ++ back) := by
  have hsplit : front ++ w :: back = front ++ ([w] ++ back) := rfl
  rw [hsplit, valueFor?_append, valueFor?_append, valueFor?_append, valueFor?_singleton]
  rcases h with hnone | hsome
  · rw [hnone, Option.or_none]
  · obtain ⟨value, hvalue⟩ := Option.isSome_iff_exists.mp hsome
    rw [hvalue]
    rfl

lemma valueFor?_isSome {name w : Text} {ws : List Text} (hw : w ∈ ws)
    (hkey : wordKey? w = some name) : (valueFor? name ws).isSome := by
  rw [valueFor?, List.findSome?_isSome_iff]
  exact ⟨w, List.mem_reverse.mpr hw, valueIn?_isSome.mpr hkey⟩

/-- A word without an equals sign has no name. -/
lemma wordKey?_eq_none {w : Text} (h : '=' ∉ w) : wordKey? w = none := by
  have hnone : w.trim.dropWhile (· != '=') = [] := by
    rw [List.dropWhile_eq_nil_iff]
    intro c hc
    rw [bne_iff_ne]
    rintro rfl
    exact h (trimBy_subset isSpace w hc)
  rw [wordKey?, option?, hnone, Option.map_none]

/-- No option gets another value. -/
lemma Rearranged.valueFor? {ws ws' : List Text} (h : Rearranged ws ws') {name : Text}
    (hname : name ∈ optionNames) : valueFor? name ws = valueFor? name ws' := by
  cases h with
  | permuted _ hsame => rw [← valueFor?_filter, hsame name hname, valueFor?_filter]
  | plain hplain =>
      exact valueFor?_drop (.inl (valueIn?_eq_none (by rw [wordKey?_eq_none hplain]; simp)))
  | @unknown _ _ w name' hkey hunknown =>
      refine valueFor?_drop (.inl (valueIn?_eq_none ?_))
      rw [hkey]
      rintro ⟨⟩
      exact hunknown hname
  | @overridden _ back w w' hmem hsome hkey =>
      by_cases hw : wordKey? w = some name
      · exact valueFor?_drop (.inr (valueFor?_isSome hmem (hkey.trans hw)))
      · exact valueFor?_drop (.inl (valueIn?_eq_none hw))

/-- However often words are put in another order or left out, no option gets another value. -/
lemma valueFor?_of_rearranged {ws ws' : List Text} (h : Relation.ReflTransGen Rearranged ws ws')
    {name : Text} (hname : name ∈ optionNames) : valueFor? name ws = valueFor? name ws' := by
  induction h with
  | refl => rfl
  | tail _ hstep ih => exact ih.trans (hstep.valueFor? hname)

/-- What an info string gives, from its words. -/
lemma IsInfo.diagramOptions? {first info : Text} {ws : List Text} (h : IsInfo (first :: ws) info) :
    diagramOptions? info =
      if lowerWord (trimBy isBracket first.trim) = marker then
        some { scale := Fence.valueFor? "scale".toList ws
               preamble := Fence.valueFor? "preamble".toList ws
               format := Fence.valueFor? "format".toList ws }
      else none := by
  rw [Fence.diagramOptions?, words_trim, h.words, List.map_cons]
  dsimp only
  rw [foldl_setOption_trim]

/-- The words of an info string are read, whatever separators stand around and between them. So its
options stay the same when other separators are taken, and when the words behind the first one are
put in another order or left out, as long as this changes no last word for an option. -/
theorem diagramOptions?_of_isInfo {first info info' : Text} {ws ws' : List Text}
    (h : IsInfo (first :: ws) info) (h' : IsInfo (first :: ws') info')
    (hsame : Relation.ReflTransGen Rearranged ws ws') :
    words info = (first :: ws).map Text.trim ∧ diagramOptions? info = diagramOptions? info' := by
  refine ⟨h.words, ?_⟩
  rw [h.diagramOptions?, h'.diagramOptions?, valueFor?_of_rearranged hsame (by decide),
    valueFor?_of_rearranged hsame (by decide), valueFor?_of_rearranged hsame (by decide)]

/-- An option that is overridden, a word that gives none, and one that names none are left out, the
two others change places, and other separators are taken. -/
theorem diagramOptions?_of_isInfo_five :
    let first := "\x7bTikZ\x7d".toList
    let scale := "scale='a, b'".toList
    let format := "format=svg".toList
    let ws := ["scale=1".toList, "draft".toList, scale, format, "depth=2".toList]
    let info := " \x7bTikZ\x7d,scale=1 draft ;scale='a, b'\tformat=svg, depth=2;".toList
    let info' := "\x7bTikZ\x7d format=svg;;scale='a, b'".toList
    IsInfo (first :: ws) info ∧ IsInfo [first, format, scale] info' ∧
      Relation.ReflTransGen Rearranged ws [format, scale] ∧
      (words info = (first :: ws).map Text.trim ∧ diagramOptions? info = diagramOptions? info') ∧
      diagramOptions? info = some { scale := "a, b".toList, format := "svg".toList } := by
  intro first scale format ws info info'
  have hinfo : IsInfo (first :: ws) info := by
    refine .mk [' '] ?_ (.next [','] ?_ ?_ ?_ (.next [' '] ?_ ?_ ?_ (.next [' ', ';'] ?_ ?_ ?_
      (.next ['\t'] ?_ ?_ ?_ (.next [',', ' '] ?_ ?_ ?_ (.last [';'] ?_ ?_)))))) <;> decide
  have hinfo' : IsInfo [first, format, scale] info' := by
    refine .mk [] ?_ (.next [' '] ?_ ?_ ?_ (.next [';', ';'] ?_ ?_ ?_ (.last [] ?_ ?_))) <;> decide
  have hsame : Relation.ReflTransGen Rearranged ws [format, scale] := by
    have hoverridden : Rearranged ws ["draft".toList, scale, format, "depth=2".toList] :=
      @Rearranged.overridden [] _ _ scale (by decide) (by decide) (by decide)
    have hplain : Rearranged ["draft".toList, scale, format, "depth=2".toList]
        [scale, format, "depth=2".toList] := @Rearranged.plain [] _ _ (by decide)
    have hunknown : Rearranged [scale, format, "depth=2".toList] [scale, format] :=
      @Rearranged.unknown [scale, format] [] _ "depth".toList (by decide) (by decide)
    have hpermuted : Rearranged [scale, format] [format, scale] :=
      .permuted (List.Perm.swap _ _ _) (by decide)
    exact .head hoverridden (.head hplain (.head hunknown (.single hpermuted)))
  exact ⟨hinfo, hinfo', hsame, diagramOptions?_of_isInfo hinfo hinfo' hsame, by decide⟩

end Fence

end Galley
