import Galley.Proofs.InfoStrings
import Galley.Proofs.Trimming
import Mathlib.Tactic

/-!
What the words of an info string keep of it. A scan from left to right tells the separators at which
words end, and all other characters belong to words. But spaces at the end of a word are cut off,
and a space may stand there that a backslash takes with it, or that a quote holds which is never
closed.

* `ScanState`: the quote that is open behind some characters, and whether a backslash waits for the
  next one;
* `kept`: an info string without the separators that end words;
* `pieces`, `kept_eq`: what stands between these separators;
* `flatten_words`: the words are these pieces with the spaces at their ends cut off;
* `EndsInSpace`, `exists_piece_iff`: a space that ends no word stands at the end of a piece;
* `words_flatten`: so the words keep all that is to be kept if and only if there is no such space.
-/

namespace Galley

namespace Fence

/-! ### The scan -/

/-- Where a scan has come to: the quote that is open, and whether a backslash waits for the next
character. -/
structure ScanState where
  quote : Option Char
  escape : Bool
deriving DecidableEq

namespace ScanState

/-- Outside quotes, and with no backslash waiting. -/
def start : ScanState := ⟨none, false⟩

/-- Where the scan comes to with one more character. -/
def next (s : ScanState) (c : Char) : ScanState :=
  if s.escape then { s with escape := false }
  else if c = '\\' then { s with escape := true }
  else if isQuote c then { s with quote := nextQuote s.quote c }
  else s

/-- The character is a separator outside quotes that no backslash takes with it. -/
def separates (s : ScanState) (c : Char) : Bool := !s.escape && s.quote.isNone && isSeparator c

end ScanState

/-- The rest of an info string without the separators that end words. -/
def keptFrom (s : ScanState) : Text → Text
  | [] => []
  | c :: cs => if s.separates c then keptFrom (s.next c) cs else c :: keptFrom (s.next c) cs

/-- An info string without the separators that end words. -/
def kept (info : Text) : Text := keptFrom .start info

/-- What stands between the separators that end words, in the rest of an info string. -/
def piecesFrom (s : ScanState) : Text → List Text
  | [] => [[]]
  | c :: cs =>
      if s.separates c then [] :: piecesFrom (s.next c) cs
      else (piecesFrom (s.next c) cs).modifyHead (c :: ·)

/-- What stands between the separators that end words. -/
def pieces (info : Text) : List Text := piecesFrom .start info

lemma exists_piecesFrom (s : ScanState) (t : Text) : ∃ p ps, piecesFrom s t = p :: ps := by
  cases t with
  | nil => exact ⟨[], [], rfl⟩
  | cons c cs =>
      rw [piecesFrom]
      split_ifs
      · exact ⟨[], _, rfl⟩
      · obtain ⟨p, ps, h⟩ := exists_piecesFrom (s.next c) cs
        exact ⟨c :: p, ps, by rw [h, List.modifyHead_cons]⟩

/-- The pieces are what is kept, cut where the separators were. -/
lemma keptFrom_eq (s : ScanState) (t : Text) : keptFrom s t = (piecesFrom s t).flatten := by
  induction t generalizing s with
  | nil => rfl
  | cons c cs ih =>
      rw [keptFrom, piecesFrom, ih]
      split_ifs
      · rfl
      · obtain ⟨p, ps, h⟩ := exists_piecesFrom (s.next c) cs
        rw [h, List.modifyHead_cons, List.flatten_cons, List.flatten_cons, List.cons_append]

lemma kept_eq (info : Text) : kept info = (pieces info).flatten := keptFrom_eq .start info

/-! ### The words are the pieces with their ends cut -/

/-- Reads pieces as words. -/
def wordsOfPieces (ps : List Text) : List Text :=
  ps.foldr (fun p ws => addWord p.reverse ws) []

lemma next_of_isQuote {c : Char} (hc : isQuote c = true) (quote : Option Char) :
    ScanState.next ⟨quote, false⟩ c = ⟨nextQuote quote c, false⟩ := by
  have hbackslash : c ≠ '\\' := by
    rintro rfl
    revert hc
    decide
  simp [ScanState.next, hbackslash, hc]

lemma next_of_plain {c : Char} (hbackslash : c ≠ '\\') (hc : ¬isQuote c = true)
    (quote : Option Char) : ScanState.next ⟨quote, false⟩ c = ⟨quote, false⟩ := by
  simp [ScanState.next, hbackslash, hc]

/-- A separator that ends a word leaves the scan outside quotes. -/
lemma next_of_separates {s : ScanState} {c : Char} (h : s.separates c = true) :
    s = .start ∧ s.next c = .start := by
  obtain ⟨quote, escape⟩ := s
  simp only [ScanState.separates, Bool.and_eq_true, Bool.not_eq_true', Option.isNone_iff_eq_none]
    at h
  obtain ⟨⟨rfl, rfl⟩, hc⟩ := h
  obtain ⟨hbackslash, hquote⟩ := plain_of_isSeparator hc
  exact ⟨rfl, next_of_plain hbackslash hquote none⟩

/-- The words come from the pieces; what has been read of a word stands in front of the first. -/
lemma wordsAux_eq (quote : Option Char) (current t : Text) :
    wordsAux quote current t =
      wordsOfPieces ((piecesFrom ⟨quote, false⟩ t).modifyHead (current.reverse ++ ·)) := by
  fun_induction wordsAux quote current t with
  | case1 quote current => simp [piecesFrom, wordsOfPieces]
  | case2 quote current c cs ih =>
      have hpieces : piecesFrom ⟨quote, false⟩ ('\\' :: c :: cs) =
          (piecesFrom ⟨quote, false⟩ cs).modifyHead ('\\' :: c :: ·) := by
        simp [piecesFrom, ScanState.separates, ScanState.next, isSeparator, isSpace,
          List.modifyHead_modifyHead, Function.comp_def]
      rw [ih, hpieces, List.modifyHead_modifyHead]
      simp [Function.comp_def]
  | case3 quote current c cs hescape hquote ih =>
      have hseparates : ScanState.separates ⟨quote, false⟩ c = false := by
        by_contra hc
        rw [Bool.not_eq_false, ScanState.separates, Bool.and_eq_true] at hc
        exact (plain_of_isSeparator hc.2).2 hquote
      rw [ih, piecesFrom, hseparates, if_neg Bool.false_ne_true, next_of_isQuote hquote,
        List.modifyHead_modifyHead]
      simp [Function.comp_def]
  | case4 quote current c cs hescape hquote hseparator ih =>
      have hseparates : ScanState.separates ⟨quote, false⟩ c = true := by
        simpa [ScanState.separates] using hseparator
      obtain ⟨hstart, hnext⟩ := next_of_separates hseparates
      obtain ⟨p, ps, hrest⟩ := exists_piecesFrom ⟨quote, false⟩ cs
      rw [ih, piecesFrom, if_pos hseparates, hnext, ← hstart, hrest]
      simp [wordsOfPieces]
  | case5 quote current c cs hescape hquote hseparator ih =>
      have hseparates : ScanState.separates ⟨quote, false⟩ c = false := by
        simpa [ScanState.separates] using hseparator
      have hpieces : piecesFrom (ScanState.next ⟨quote, false⟩ c) cs =
          piecesFrom ⟨quote, false⟩ cs := by
        by_cases hc : c = '\\'
        · -- a backslash waits for nothing, as it is the last character
          cases cs with
          | nil => rfl
          | cons d ds => exact absurd rfl (hescape d ds hc)
        · rw [next_of_plain hc hquote]
      rw [ih, piecesFrom, hseparates, if_neg Bool.false_ne_true, hpieces,
        List.modifyHead_modifyHead]
      simp [Function.comp_def]

lemma words_eq_wordsOfPieces (info : Text) : words info = wordsOfPieces (pieces info) := by
  have h := wordsAux_eq none [] info
  obtain ⟨p, ps, hpieces⟩ := exists_piecesFrom .start info
  rw [words, h, pieces]
  rw [ScanState.start] at hpieces ⊢
  rw [hpieces]
  rfl

lemma flatten_wordsOfPieces (ps : List Text) :
    (wordsOfPieces ps).flatten = (ps.map Text.trim).flatten := by
  induction ps with
  | nil => rfl
  | cons p ps ih =>
      rw [wordsOfPieces, List.foldr_cons, ← wordsOfPieces, addWord, List.reverse_reverse,
        List.map_cons, List.flatten_cons, ← ih]
      split_ifs with hempty
      · rw [List.isEmpty_iff.mp hempty, List.nil_append]
      · rw [List.flatten_cons]

/-- The first piece does not begin with a space if the scan is outside quotes. -/
lemma head_of_piecesFrom_start {t p : Text} {ps : List Text}
    (h : piecesFrom .start t = p :: ps) : ∀ c ∈ p.head?, isSpace c = false := by
  cases t with
  | nil =>
      obtain ⟨rfl, -⟩ := List.cons.inj h
      simp
  | cons c cs =>
      rw [piecesFrom] at h
      split_ifs at h with hc
      · obtain ⟨rfl, -⟩ := List.cons.inj h
        simp
      · obtain ⟨q, qs, hrest⟩ := exists_piecesFrom (ScanState.next .start c) cs
        rw [hrest, List.modifyHead_cons] at h
        obtain ⟨rfl, -⟩ := List.cons.inj h
        simp only [ScanState.separates, ScanState.start, isSeparator, Bool.not_false,
          Option.isNone_none, Bool.and_self, Bool.true_and, Bool.or_eq_true, not_or] at hc
        simpa using hc.1.1

/-- Behind a separator the scan is outside quotes, so no piece but the first begins with a space. -/
lemma head_of_mem_tail (s : ScanState) (t : Text) :
    ∀ p ∈ (piecesFrom s t).tail, ∀ c ∈ p.head?, isSpace c = false := by
  induction t generalizing s with
  | nil => simp [piecesFrom]
  | cons c cs ih =>
      obtain ⟨q, qs, hrest⟩ := exists_piecesFrom (s.next c) cs
      have htail := ih (s.next c)
      rw [hrest, List.tail_cons] at htail
      rw [piecesFrom, hrest]
      split_ifs with hc
      · rw [(next_of_separates hc).2] at hrest
        exact List.forall_mem_cons.mpr ⟨head_of_piecesFrom_start hrest, htail⟩
      · exact htail

/-- No piece begins with a space. -/
lemma head_of_mem_pieces {info p : Text} (h : p ∈ pieces info) :
    ∀ c ∈ p.head?, isSpace c = false := by
  obtain ⟨q, qs, hpieces⟩ := exists_piecesFrom .start info
  have htail := head_of_mem_tail .start info
  rw [hpieces, List.tail_cons] at htail
  rw [pieces, hpieces] at h
  rcases List.mem_cons.mp h with rfl | hmem
  · exact head_of_piecesFrom_start hpieces
  · exact htail p hmem

/-- So only the spaces at its end are cut off. -/
lemma trim_of_mem_pieces {info p : Text} (h : p ∈ pieces info) :
    p.trim = dropEndWhile isSpace p := by
  rw [Text.trim, trimBy, dropWhile_of_head (head_of_mem_pieces h)]

/-- The words together are the pieces without the spaces at their ends. -/
lemma flatten_words (info : Text) :
    (words info).flatten = ((pieces info).map (dropEndWhile isSpace)).flatten := by
  rw [words_eq_wordsOfPieces, flatten_wordsOfPieces]
  exact congrArg List.flatten (List.map_congr_left fun p hp => trim_of_mem_pieces hp)

/-! ### Spaces at the end of a piece -/

/-- If nothing is cut off all pieces together, nothing is cut off any of them. -/
lemma flatten_map_eq_iff {α : Type} {f : List α → List α} (hf : ∀ p, f p <+: p)
    (ps : List (List α)) : (ps.map f).flatten = ps.flatten ↔ ∀ p ∈ ps, f p = p := by
  have hlength : ∀ qs : List (List α), (qs.map f).flatten.length ≤ qs.flatten.length := by
    intro qs
    induction qs with
    | nil => rfl
    | cons q qs ih =>
        simp only [List.map_cons, List.flatten_cons, List.length_append]
        exact Nat.add_le_add (hf q).length_le ih
  induction ps with
  | nil => simp
  | cons p ps ih =>
      rw [List.forall_mem_cons, List.map_cons, List.flatten_cons, List.flatten_cons]
      constructor
      · intro h
        have hall := congrArg List.length h
        rw [List.length_append, List.length_append] at hall
        have hle := (hf p).length_le
        have hrest := hlength ps
        obtain ⟨hp, hps⟩ := List.append_inj h (by omega)
        exact ⟨hp, ih.mp hps⟩
      · rintro ⟨hp, hps⟩
        rw [hp, ih.mpr hps]

/-- In the rest of an info string, a space that does not end a word stands in front of a separator
that does, or at the end. -/
def EndsInSpaceFrom (s : ScanState) (t : Text) : Prop :=
  ∃ before c behind, t = before ++ c :: behind ∧ isSpace c = true ∧
    (before.foldl ScanState.next s).separates c = false ∧
    ∀ d ∈ behind.head?, ((before ++ [c]).foldl ScanState.next s).separates d = true

/-- A space that does not end a word stands in front of a separator that does, or at the end. -/
def EndsInSpace (info : Text) : Prop := EndsInSpaceFrom .start info

lemma endsInSpaceFrom_cons (s : ScanState) (d : Char) (t : Text) :
    EndsInSpaceFrom s (d :: t) ↔
      (isSpace d = true ∧ s.separates d = false ∧
        ∀ e ∈ t.head?, (s.next d).separates e = true) ∨ EndsInSpaceFrom (s.next d) t := by
  constructor
  · rintro ⟨before, c, behind, heq, hspace, hkept, hend⟩
    cases before with
    | nil =>
        obtain ⟨rfl, rfl⟩ := List.cons.inj heq
        exact .inl ⟨hspace, hkept, hend⟩
    | cons b before =>
        obtain ⟨rfl, rfl⟩ := List.cons.inj heq
        exact .inr ⟨before, c, behind, rfl, hspace, hkept, hend⟩
  · rintro (⟨hspace, hkept, hend⟩ | ⟨before, c, behind, rfl, hspace, hkept, hend⟩)
    · exact ⟨[], d, t, rfl, hspace, hkept, hend⟩
    · exact ⟨d :: before, c, behind, rfl, hspace, hkept, hend⟩

/-- The first piece is empty if and only if a separator comes next, or the end. -/
lemma piecesFrom_head_eq_nil {s : ScanState} {t p : Text} {ps : List Text}
    (h : piecesFrom s t = p :: ps) : p = [] ↔ ∀ e ∈ t.head?, s.separates e = true := by
  cases t with
  | nil =>
      obtain ⟨rfl, -⟩ := List.cons.inj h
      simp
  | cons c cs =>
      rw [piecesFrom] at h
      split_ifs at h with hc
      · obtain ⟨rfl, -⟩ := List.cons.inj h
        simpa using hc
      · obtain ⟨q, qs, hrest⟩ := exists_piecesFrom (s.next c) cs
        rw [hrest, List.modifyHead_cons] at h
        obtain ⟨rfl, -⟩ := List.cons.inj h
        simpa using hc

/-- A space stands at the end of a piece if and only if it is followed by a separator that ends the
word, or by nothing. -/
lemma exists_piece_iff (s : ScanState) (t : Text) :
    (∃ p ∈ piecesFrom s t, ∃ c ∈ p.getLast?, isSpace c = true) ↔ EndsInSpaceFrom s t := by
  induction t generalizing s with
  | nil => simp [piecesFrom, EndsInSpaceFrom]
  | cons d t ih =>
      obtain ⟨p, ps, hrest⟩ := exists_piecesFrom (s.next d) t
      rw [endsInSpaceFrom_cons, ← ih, piecesFrom, hrest]
      split_ifs with hd
      · simp [hd]
      · rw [List.modifyHead_cons, List.exists_mem_cons_iff, List.exists_mem_cons_iff,
          ← piecesFrom_head_eq_nil hrest]
        cases p with
        | nil => simp [hd]
        | cons c p => simp

lemma exists_mem_pieces_iff (info : Text) :
    (∃ p ∈ pieces info, ∃ c ∈ p.getLast?, isSpace c = true) ↔ EndsInSpace info :=
  exists_piece_iff .start info

/-- The words of an info string together are what stands between the separators that end words,
without the spaces at the ends. So they keep every character but these separators if and only if no
other space stands in front of one, or at the end of the info string. -/
theorem words_flatten (info : Text) :
    kept info = (pieces info).flatten ∧
      (words info).flatten = ((pieces info).map (dropEndWhile isSpace)).flatten ∧
      ((words info).flatten = kept info ↔ ¬EndsInSpace info) := by
  refine ⟨kept_eq info, flatten_words info, ?_⟩
  rw [flatten_words, kept_eq, flatten_map_eq_iff (prefix_dropEndWhile isSpace),
    ← exists_mem_pieces_iff]
  simp only [dropEndWhile_eq_self_iff, not_exists, not_and, Bool.not_eq_true]

/-- A space that a backslash takes with it is lost at the end of a word. -/
theorem words_lose_escaped_space :
    words "a\\ ,b".toList = ["a\\".toList, "b".toList] ∧
      kept "a\\ ,b".toList = "a\\ b".toList ∧
      (words "a\\ ,b".toList).flatten ≠ kept "a\\ ,b".toList := by
  decide

end Fence

end Galley
