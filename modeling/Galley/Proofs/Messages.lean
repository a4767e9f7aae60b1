import Galley.Diagram.Message
import Galley.Proofs.Pieces
import Galley.Proofs.Trimming
import Mathlib.Tactic

/-!
Messages in documents. A message is one line without spaces at its ends, and is read back from the
document that shows it, whatever characters it is made of.

* `flatten_plain`, `shorten_shorten`: a short message is not changed any more;
* `Latex.escapes`, `Latex.StandsFor`: the sequences for special characters, and what a text made of
  plain characters and such sequences stands for;
* `Latex.StandsFor.unique`, `Latex.escape_injective`: it stands for one text only;
* `errorLines`, `errorDocument_shows`: the lines of the document that shows a message.
-/

namespace Galley

/-! ### One line -/

lemma flatten_cons {c : Char} {t : Text} (h : ∀ u, c = '\r' → t = '\n' :: u → False) :
    flatten (c :: t) = (if c == '\n' || c == '\r' then ' ' else c) :: flatten t := by
  rw [flatten]
  exact fun u hc ht => h u hc ht

/-- No break between lines is left. -/
lemma flatten_plain (t : Text) : '\r' ∉ flatten t ∧ '\n' ∉ flatten t := by
  have hchar : ∀ c : Char, '\r' ≠ (if c == '\n' || c == '\r' then ' ' else c) ∧
      '\n' ≠ (if c == '\n' || c == '\r' then ' ' else c) := by
    intro c
    split_ifs with hbreak
    · decide
    · simp only [Bool.or_eq_true, beq_iff_eq, not_or] at hbreak
      exact ⟨Ne.symm hbreak.2, Ne.symm hbreak.1⟩
  fun_induction flatten t with
  | case1 cs ih => simpa using ih
  | case2 c cs _ ih =>
      rw [List.mem_cons, List.mem_cons, not_or, not_or]
      exact ⟨⟨(hchar c).1, ih.1⟩, (hchar c).2, ih.2⟩
  | case3 => simp

/-- A text without breaks stays as it is. -/
lemma flatten_of_plain {t : Text} (hreturn : '\r' ∉ t) (hfeed : '\n' ∉ t) : flatten t = t := by
  induction t with
  | nil => rfl
  | cons c t ih =>
      simp only [List.mem_cons, not_or] at hreturn hfeed
      rw [flatten_cons fun _ hc _ => hreturn.1 hc.symm, ih hreturn.2 hfeed.2, if_neg]
      simp [Ne.symm hreturn.1, Ne.symm hfeed.1]

/-- A character that is no break comes behind what is made of the text before it. -/
lemma flatten_concat {c : Char} (hc : isSpace c = false) (t : Text) :
    flatten (t ++ [c]) = flatten t ++ [c] := by
  have hbreak : c ≠ '\n' ∧ c ≠ '\r' := by
    constructor <;> rintro rfl <;> revert hc <;> decide
  fun_induction flatten t with
  | case1 cs ih => rw [List.cons_append, List.cons_append, flatten, ih, List.cons_append]
  | case2 d cs hpair ih =>
      rw [List.cons_append, flatten_cons, ih, List.cons_append]
      intro u hd hcs
      cases cs with
      | nil => exact hbreak.1 (List.cons.inj hcs).1
      | cons e es => exact hpair es hd (by rw [(List.cons.inj hcs).1])
  | case3 =>
      rw [List.nil_append, flatten_cons fun u hd _ => hbreak.2 hd, if_neg (by simp [hbreak])]
      rfl

lemma IsTrimmed.flatten {t : Text} (h : IsTrimmed t) : IsTrimmed (flatten t) := by
  refine ⟨?_, ?_⟩
  · cases t with
    | nil => simp [Galley.flatten]
    | cons c t =>
        have hc := h.head c rfl
        have hbreak : c ≠ '\n' ∧ c ≠ '\r' := by
          constructor <;> rintro rfl <;> revert hc <;> decide
        rw [flatten_cons fun u hd _ => hbreak.2 hd, if_neg (by simp [hbreak])]
        rintro _ ⟨⟩
        exact hc
  · rcases List.eq_nil_or_concat t with rfl | ⟨front, c, rfl⟩
    · simp [Galley.flatten]
    · have hc := h.last c (by simp)
      rw [List.concat_eq_append, flatten_concat hc, List.getLast?_concat]
      rintro _ ⟨⟩
      exact hc

/-! ### Short messages -/

/-- A message that is cut keeps its beginning, and ends in a mark. -/
lemma isTrimmed_cut {t : Text} (h : IsTrimmed t) {n : Nat} (hn : 0 < n) (hlong : n < t.length) :
    IsTrimmed (t.take n ++ ['…']) := by
  refine ⟨fun c hc => h.head c ?_, ?_⟩
  · cases t with
    | nil => simp at hlong
    | cons d t =>
        obtain ⟨n, rfl⟩ := Nat.exists_eq_add_one_of_ne_zero hn.ne'
        simpa using hc
  · rw [List.getLast?_concat]
    rintro _ ⟨⟩
    decide

lemma shorten_eq (m : Text) :
    (maxMessage < (flatten m.trim).length ∧
        shorten m = (flatten m.trim).take maxMessage ++ ['…']) ∨
      ((flatten m.trim).length ≤ maxMessage ∧ shorten m = flatten m.trim) := by
  rw [shorten]
  split_ifs with hlong
  · exact .inl ⟨hlong, rfl⟩
  · exact .inr ⟨not_lt.mp hlong, rfl⟩

lemma length_shorten_le (m : Text) : (shorten m).length ≤ maxMessage + 1 := by
  rcases shorten_eq m with ⟨hlong, hm⟩ | ⟨hshort, hm⟩
  · rw [hm, List.length_append, List.length_take]
    simp
  · rw [hm]
    omega

/-- A short message is one line. -/
lemma shorten_plain (m : Text) : '\r' ∉ shorten m ∧ '\n' ∉ shorten m := by
  obtain ⟨hreturn, hfeed⟩ := flatten_plain m.trim
  rcases shorten_eq m with ⟨-, hm⟩ | ⟨-, hm⟩
  · simp only [hm, List.mem_append, List.mem_singleton, not_or]
    exact ⟨⟨fun h => hreturn (List.mem_of_mem_take h), by decide⟩,
      fun h => hfeed (List.mem_of_mem_take h), by decide⟩
  · rw [hm]
    exact ⟨hreturn, hfeed⟩

lemma isTrimmed_shorten (m : Text) : IsTrimmed (shorten m) := by
  have hflat := (isTrimmed_trim m).flatten
  rcases shorten_eq m with ⟨hlong, hm⟩ | ⟨-, hm⟩
  · rw [hm]
    exact isTrimmed_cut hflat (by decide) hlong
  · rw [hm]
    exact hflat

/-- A short message is not changed any more, not even one that was cut. -/
lemma shorten_shorten (m : Text) : shorten (shorten m) = shorten m := by
  have hkept : flatten (shorten m).trim = shorten m := by
    rw [(isTrimmed_shorten m).trim, flatten_of_plain (shorten_plain m).1 (shorten_plain m).2]
  have hagain := shorten_eq (shorten m)
  rw [hkept] at hagain
  rcases hagain with ⟨hlong, hagain⟩ | ⟨-, hagain⟩
  · rcases shorten_eq m with ⟨hlong', hm⟩ | ⟨hshort, hm⟩
    · have htake : (shorten m).take maxMessage = (flatten m.trim).take maxMessage := by
        rw [hm, List.take_append_of_le_length (by simp; omega), List.take_take, min_self]
      rw [hagain, htake, ← hm]
    · rw [hm] at hlong
      omega
  · exact hagain

/-! ### Special characters -/

namespace Latex

/-- The characters that mean something in a document, each with the sequence that stands for it. -/
def escapes : List (Char × Text) :=
  [('\\', "\\textbackslash\x7b\x7d".toList), ('\x7b', "\\\x7b".toList), ('\x7d', "\\\x7d".toList),
    ('%', "\\%".toList), ('$', "\\$".toList), ('#', "\\#".toList), ('_', "\\_".toList),
    ('&', "\\&".toList), ('^', "\\^\x7b\x7d".toList), ('~', "\\~\x7b\x7d".toList)]

/-- The characters that mean something in a document. -/
def specials : Text := escapes.map Prod.fst

/-- What a text in a document stands for: a plain character stands for itself, and a special one is
there only as part of a sequence for a special character. -/
inductive StandsFor : Text → Text → Prop
  | nil : StandsFor [] []
  | plain {c : Char} {s t : Text} : c ∉ specials → StandsFor s t → StandsFor (c :: s) (c :: t)
  | special {c : Char} {sequence s t : Text} :
      (c, sequence) ∈ escapes → StandsFor s t → StandsFor (sequence ++ s) (c :: t)

lemma escapeChar_spec (c : Char) :
    (c ∉ specials ∧ escapeChar c = [c]) ∨ (c, escapeChar c) ∈ escapes := by
  unfold escapeChar
  split
  iterate 10 exact .inr (by decide)
  refine .inl ⟨?_, rfl⟩
  simp only [specials, escapes, List.map_cons, List.map_nil, List.mem_cons, List.not_mem_nil,
    or_false, not_or]
  refine ⟨?_, ?_, ?_, ?_, ?_, ?_, ?_, ?_, ?_, ?_⟩ <;> assumption

/-- An escaped text stands for the text. -/
lemma standsFor_escape (t : Text) : StandsFor (escape t) t := by
  induction t with
  | nil => exact .nil
  | cons c t ih =>
      have hcons : escape (c :: t) = escapeChar c ++ escape t := List.flatMap_cons
      rw [hcons]
      rcases escapeChar_spec c with ⟨hplain, hc⟩ | hc
      · rw [hc]
        exact .plain hplain ih
      · exact .special hc ih

/-- No sequence is the beginning of another one. -/
lemma escapes_prefix_free : ∀ e ∈ escapes, ∀ e' ∈ escapes, e.2 <+: e'.2 → e = e' := by decide

/-- All sequences begin with a special character. -/
lemma head_of_mem_escapes {c : Char} {sequence : Text} (h : (c, sequence) ∈ escapes) :
    ∃ rest, sequence = '\\' :: rest := by
  have hhead := (by decide : ∀ e ∈ escapes, e.2.head? = some '\\') _ h
  exact List.head?_eq_some_iff.mp hhead

lemma sequence_inj {c c' : Char} {u u' s s' : Text} (h : (c, u) ∈ escapes)
    (h' : (c', u') ∈ escapes) (heq : u ++ s = u' ++ s') : c = c' ∧ s = s' := by
  have heither := List.prefix_or_prefix_of_prefix (List.prefix_append u s)
    (heq ▸ List.prefix_append u' s')
  have hsame : (c, u) = (c', u') := heither.elim (escapes_prefix_free _ h _ h')
    fun hprefix => (escapes_prefix_free _ h' _ h hprefix).symm
  obtain ⟨rfl, rfl⟩ := Prod.mk.inj hsame
  exact ⟨rfl, List.append_cancel_left heq⟩

lemma backslash_special : '\\' ∈ specials := by decide

lemma StandsFor.of_nil {t : Text} (h : StandsFor [] t) : t = [] := by
  generalize hu : ([] : Text) = u at h
  cases h with
  | nil => rfl
  | plain => cases hu
  | special hmem _ =>
      obtain ⟨rest, rfl⟩ := head_of_mem_escapes hmem
      cases hu

lemma StandsFor.of_plain {c : Char} {s t : Text} (hc : c ∉ specials) (h : StandsFor (c :: s) t) :
    ∃ t', t = c :: t' ∧ StandsFor s t' := by
  generalize hu : c :: s = u at h
  cases h with
  | nil => cases hu
  | plain _ h =>
      obtain ⟨rfl, rfl⟩ := List.cons.inj hu
      exact ⟨_, rfl, h⟩
  | special hmem _ =>
      obtain ⟨rest, rfl⟩ := head_of_mem_escapes hmem
      exact absurd ((List.cons.inj hu).1 ▸ backslash_special) hc

lemma StandsFor.of_special {c : Char} {sequence s t : Text} (hc : (c, sequence) ∈ escapes)
    (h : StandsFor (sequence ++ s) t) : ∃ t', t = c :: t' ∧ StandsFor s t' := by
  generalize hu : sequence ++ s = u at h
  cases h with
  | nil =>
      obtain ⟨rest, rfl⟩ := head_of_mem_escapes hc
      cases hu
  | plain hplain _ =>
      obtain ⟨rest, rfl⟩ := head_of_mem_escapes hc
      exact absurd ((List.cons.inj hu).1 ▸ backslash_special) hplain
  | special hmem h =>
      obtain ⟨rfl, rfl⟩ := sequence_inj hc hmem hu
      exact ⟨_, rfl, h⟩

/-- A text in a document stands for one text only. -/
lemma StandsFor.unique {s t t' : Text} (h : StandsFor s t) (h' : StandsFor s t') : t = t' := by
  induction h generalizing t' with
  | nil => exact h'.of_nil.symm
  | plain hc _ ih =>
      obtain ⟨t'', rfl, h''⟩ := h'.of_plain hc
      rw [ih h'']
  | special hc _ ih =>
      obtain ⟨t'', rfl, h''⟩ := h'.of_special hc
      rw [ih h'']

/-- Different texts are escaped differently. -/
lemma escape_injective : Function.Injective escape := fun t t' h =>
  (standsFor_escape t).unique (h ▸ standsFor_escape t')

/-- Escaping brings no line feed along. -/
lemma feed_notMem_escape {t : Text} (h : '\n' ∉ t) : '\n' ∉ escape t := by
  rw [escape, List.mem_flatMap]
  rintro ⟨c, hc, hfeed⟩
  rcases escapeChar_spec c with ⟨-, hplain⟩ | hmem
  · rw [hplain, List.mem_singleton] at hfeed
    exact h (hfeed ▸ hc)
  · exact (by decide : ∀ e ∈ escapes, '\n' ∉ e.2) _ hmem hfeed

end Latex

/-! ### Documents -/

open Latex

/-- The lines of the document that shows a message on one line. -/
def errorLines (t : Text) : List Text :=
  ["\\documentclass[border=6pt,varwidth=14cm]\x7bstandalone\x7d".toList,
    "\\usepackage\x7bxcolor\x7d".toList, "\\begin\x7bdocument\x7d".toList,
    "\\color\x7bred\x7d\\ttfamily TikZ render failed:\\par ".toList ++ escape t,
    "\\end\x7bdocument\x7d".toList]

lemma errorDocument_eq (m : Text) : errorDocument m = unlines (errorLines (shorten m)) := by
  have hbegin : "\\documentclass[border=6pt,varwidth=14cm]\x7bstandalone\x7d\n".toList ++
      "\\usepackage\x7bxcolor\x7d\n\\begin\x7bdocument\x7d\n".toList =
        unlines ((errorLines []).take 3) := by
    simp [errorLines, unlines]
  have hend : "\n\\end\x7bdocument\x7d\n".toList = '\n' :: unlines ((errorLines []).drop 4) := by
    simp [errorLines, unlines]
  have hlines : errorLines (shorten m) = (errorLines []).take 3 ++
      ("\\color\x7bred\x7d\\ttfamily TikZ render failed:\\par ".toList ++ escape (shorten m)) ::
        (errorLines []).drop 4 := rfl
  rw [hlines, unlines_append, unlines_cons, ← hbegin, ← hend, ← List.append_assoc,
    ← List.append_assoc]
  rfl

lemma feed_notMem_errorLines {t : Text} (h : '\n' ∉ t) : ∀ line ∈ errorLines t, '\n' ∉ line := by
  have hfixed : ∀ line ∈ errorLines [], '\n' ∉ line := by decide
  have hmessage := feed_notMem_escape h
  simp only [errorLines, List.forall_mem_cons] at hfixed ⊢
  obtain ⟨hclass, hcolor, hbegin, hprefix, hend⟩ := hfixed
  refine ⟨hclass, hcolor, hbegin, ?_, hend⟩
  rw [List.mem_append, not_or]
  exact ⟨fun hfeed => hprefix (List.mem_append_left _ hfeed), hmessage⟩

/-- The document that shows a message has five lines. The fourth one holds the message, shortened to
one line, which is short already when it is shortened again, and which alone can be read back from
it. -/
theorem errorDocument_shows (m : Text) :
    ((shorten m).length ≤ 241 ∧ '\r' ∉ shorten m ∧ '\n' ∉ shorten m ∧
        shorten (shorten m) = shorten m) ∧
      Function.Injective escape ∧
      errorDocument m = unlines (errorLines (shorten m)) ∧
      (∀ line ∈ errorLines (shorten m), '\n' ∉ line) ∧
      StandsFor (escape (shorten m)) (shorten m) ∧
      ∀ t, StandsFor (escape (shorten m)) t → t = shorten m := by
  obtain ⟨hreturn, hfeed⟩ := shorten_plain m
  refine ⟨⟨length_shorten_le m, hreturn, hfeed, shorten_shorten m⟩, escape_injective,
    errorDocument_eq m, feed_notMem_errorLines hfeed, standsFor_escape _, fun t ht => ?_⟩
  exact ht.unique (standsFor_escape _)

end Galley
