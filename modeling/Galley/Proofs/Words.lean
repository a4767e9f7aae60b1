import Galley.Fence
import Galley.Proofs.Numerals
import Mathlib.Tactic

/-!
The words of an info string, from their own characters. Which quote is open, and whether a backslash
waits for its character, is told by the characters of a word alone, so what a word is does not hang
on what stands around it.

* `scanWord?`: the quote that is open behind characters of one word;
* `wordsAux_scan`: such characters are added to the word that is being read;
* `IsWord`: a text that is read from outside quotes to outside quotes;
* `words_append`, `words_of_isWord`: a word with a separator behind it, and a word at the end.
-/

namespace Galley

namespace Fence

/-! ### Characters of one word -/

/-- Reads characters of one word, and gives the quote that is open behind them. There is none if a
separator stands outside quotes, or if a backslash at the end waits for its character. -/
def scanWord? (quote : Option Char) : Text → Option (Option Char)
  | [] => some quote
  | '\\' :: _ :: cs => scanWord? quote cs
  | ['\\'] => none
  | c :: cs =>
      if isQuote c then scanWord? (nextQuote quote c) cs
      else if quote.isNone && isSeparator c then none
      else scanWord? quote cs

lemma scanWord?_cons {c : Char} (hc : c ≠ '\\') (quote : Option Char) (cs : Text) :
    scanWord? quote (c :: cs) =
      if isQuote c then scanWord? (nextQuote quote c) cs
      else if quote.isNone && isSeparator c then none
      else scanWord? quote cs := by
  rw [scanWord?]
  · exact fun _ _ h _ => hc h
  · exact fun h _ => hc h

lemma wordsAux_cons {c : Char} (hc : c ≠ '\\') (quote : Option Char) (current cs : Text) :
    wordsAux quote current (c :: cs) =
      if isQuote c then wordsAux (nextQuote quote c) (c :: current) cs
      else if quote.isNone && isSeparator c then addWord current (wordsAux quote [] cs)
      else wordsAux quote (c :: current) cs := by
  rw [wordsAux]
  exact fun _ _ h _ => hc h

/-- A character is no backslash if it neither has a character to take with it nor stands alone. -/
lemma ne_backslash {c : Char} {cs : Text} (hescape : ∀ d ds, c = '\\' → cs = d :: ds → False)
    (hlone : c = '\\' → cs = [] → False) : c ≠ '\\' := fun hc => by
  cases cs with
  | nil => exact hlone hc rfl
  | cons d ds => exact hescape d ds hc rfl

/-- Characters of one word are added to the word that is being read. -/
lemma wordsAux_scan {quote quote' : Option Char} {s : Text}
    (h : scanWord? quote s = some quote') (current rest : Text) :
    wordsAux quote current (s ++ rest) = wordsAux quote' (s.reverse ++ current) rest := by
  fun_induction scanWord? quote s generalizing current with
  | case1 quote => rw [Option.some.inj h]; rfl
  | case2 quote c cs ih =>
      have hstep : wordsAux quote current ('\\' :: c :: (cs ++ rest)) =
          wordsAux quote (c :: '\\' :: current) (cs ++ rest) := by
        rw [wordsAux]
      rw [List.cons_append, List.cons_append, hstep, ih h]
      simp
  | case3 => cases h
  | case4 quote c cs hescape hlone hquote ih =>
      rw [List.cons_append, wordsAux_cons (ne_backslash hescape hlone), if_pos hquote, ih h]
      simp
  | case5 => cases h
  | case6 quote c cs hescape hlone hquote hseparator ih =>
      rw [List.cons_append, wordsAux_cons (ne_backslash hescape hlone), if_neg hquote,
        if_neg hseparator, ih h]
      simp

/-- What is read behind characters of one word goes on from the quote that they leave open. -/
lemma scanWord?_append {quote quote' : Option Char} {s : Text}
    (h : scanWord? quote s = some quote') (t : Text) :
    scanWord? quote (s ++ t) = scanWord? quote' t := by
  fun_induction scanWord? quote s with
  | case1 quote => rw [Option.some.inj h]; rfl
  | case2 quote c cs ih => rw [List.cons_append, List.cons_append, scanWord?, ih h]
  | case3 => cases h
  | case4 quote c cs hescape hlone hquote ih =>
      rw [List.cons_append, scanWord?_cons (ne_backslash hescape hlone), if_pos hquote, ih h]
  | case5 => cases h
  | case6 quote c cs hescape hlone hquote hseparator ih =>
      rw [List.cons_append, scanWord?_cons (ne_backslash hescape hlone), if_neg hquote,
        if_neg hseparator, ih h]

/-! ### Words -/

/-- A text is one word: it is not empty, and it is read from outside quotes to outside quotes. -/
structure IsWord (w : Text) : Prop where
  filled : w ≠ []
  scanned : scanWord? none w = some none

lemma plain_of_isSeparator {c : Char} (h : isSeparator c = true) :
    c ≠ '\\' ∧ ¬isQuote c = true := by
  refine ⟨?_, fun hquote => ?_⟩
  · rintro rfl
    revert h
    decide
  · rw [isQuote, Bool.or_eq_true, beq_iff_eq, beq_iff_eq] at hquote
    rcases hquote with rfl | rfl <;> revert h <;> decide

/-- A word does not begin with a separator. -/
lemma IsWord.head {c : Char} {w : Text} (h : IsWord (c :: w)) : isSeparator c = false := by
  by_contra hc
  rw [Bool.not_eq_false] at hc
  obtain ⟨hbackslash, hquote⟩ := plain_of_isSeparator hc
  have hscan := h.scanned
  rw [scanWord?_cons hbackslash, if_neg hquote, if_pos (by simpa using hc)] at hscan
  cases hscan

/-- So something is left of it when the spaces at its ends are cut. -/
lemma IsWord.trim_ne_nil {w : Text} (h : IsWord w) : w.trim ≠ [] := by
  cases w with
  | nil => exact absurd rfl h.filled
  | cons c w =>
      have hspace : isSpace c = false := by
        have := h.head
        rw [isSeparator, Bool.or_assoc, Bool.or_eq_false_iff] at this
        exact this.1
      exact List.ne_nil_of_mem (mem_trimBy hspace List.mem_cons_self)

lemma IsWord.addWord {w : Text} (h : IsWord w) (rest : List Text) :
    addWord w.reverse rest = w.trim :: rest := by
  rw [Fence.addWord, List.reverse_reverse, if_neg (by simpa using h.trim_ne_nil)]

/-- A word at the end. -/
lemma words_of_isWord {w : Text} (h : IsWord w) : words w = [w.trim] := by
  have hscan := wordsAux_scan h.scanned [] []
  rw [List.append_nil, List.append_nil] at hscan
  rw [words, hscan, wordsAux, h.addWord]

/-- A separator outside quotes ends the word that is being read. -/
lemma wordsAux_separator {c : Char} (hc : isSeparator c = true) (current rest : Text) :
    wordsAux none current (c :: rest) = Fence.addWord current (words rest) := by
  obtain ⟨hbackslash, hquote⟩ := plain_of_isSeparator hc
  rw [wordsAux_cons hbackslash, if_neg hquote, if_pos (by simpa using hc), words]

/-- A word with a separator behind it. -/
lemma words_append {w : Text} {c : Char} (h : IsWord w) (hc : isSeparator c = true) (rest : Text) :
    words (w ++ c :: rest) = w.trim :: words rest := by
  rw [words, wordsAux_scan h.scanned, List.append_nil, wordsAux_separator hc, h.addWord]

end Fence

end Galley
