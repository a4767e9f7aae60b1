import Galley.Directive
import Galley.Proofs.Trimming
import Mathlib.Tactic

/-!
The characters of numbers, as they are written and as they are read.

* `numberAlphabet`: the characters that numbers are written with;
* `numberArgument_subset`: a number as an argument is written with them;
* `IsForeign`: the characters that no numeral holds, in whatever script its digits are;
* `readNumber_eq_none`: a text with such a character is not a numeral.
-/

namespace Galley

/-! ### Numbers as they are written -/

/-- The digits. -/
def digitAlphabet : Text := "0123456789".toList

lemma mem_digitAlphabet {c : Char} (h : isDigit c = true) : c ∈ digitAlphabet := by
  have hvalue : 48 ≤ c.toNat ∧ c.toNat ≤ 57 := by
    rw [isDigit, Bool.and_eq_true, decide_eq_true_eq, decide_eq_true_eq] at h
    exact h
  have hall : ∀ n < 58, 48 ≤ n → Char.ofNat n ∈ digitAlphabet := by decide
  have := hall c.toNat (by omega) hvalue.1
  rwa [Char.ofNat_toNat] at this

/-- The characters that numbers are written with: digits, point, signs and exponent mark, and the
letters of the words for infinity and not-a-number. -/
def numberAlphabet : Text := "0123456789.+-einfa".toList

lemma ofNat_subset (n : Nat) : Text.ofNat n ⊆ numberAlphabet := by
  intro c hc
  have hdigits : digitAlphabet ⊆ numberAlphabet := by decide
  exact hdigits (mem_digitAlphabet (ofNat_digits hc))

lemma ofInt_subset (n : Int) : Text.ofInt n ⊆ numberAlphabet := by
  cases n with
  | ofNat n => exact ofNat_subset n
  | negSucc n => exact List.cons_subset.mpr ⟨by decide, ofNat_subset (n + 1)⟩

lemma replicate_subset_numberAlphabet (n : Nat) : List.replicate n '0' ⊆ numberAlphabet := by
  intro c hc
  rw [List.eq_of_mem_replicate hc]
  decide

lemma exponentText_subset (e : Int) : exponentText e ⊆ numberAlphabet := by
  have hdigits := ofNat_subset e.natAbs
  rw [exponentText]
  refine List.cons_subset.mpr ⟨by decide, List.cons_subset.mpr ⟨?_, ?_⟩⟩
  · split_ifs <;> decide
  · split_ifs
    · exact List.cons_subset.mpr ⟨by decide, hdigits⟩
    · exact hdigits

lemma lay_subset (layout : NumberLayout) (s : Scaled) : layout.lay s ⊆ numberAlphabet := by
  have hdigits := ofNat_subset s.digits
  rw [NumberLayout.lay]
  generalize Text.ofNat s.digits = digits at hdigits ⊢
  generalize (if s.digits = 0 then 0 else (digits.length : Int) + s.exponent - 1) = first
  have hzeros := replicate_subset_numberAlphabet
  split_ifs
  · refine List.append_subset.mpr ⟨List.append_subset.mpr ⟨hdigits, hzeros _⟩, ?_⟩
    decide
  · exact List.append_subset.mpr ⟨List.append_subset.mpr ⟨hdigits, hzeros _⟩, List.nil_subset _⟩
  · refine List.cons_subset.mpr ⟨by decide, List.cons_subset.mpr ⟨by decide, ?_⟩⟩
    exact List.append_subset.mpr ⟨hzeros _, hdigits⟩
  · refine List.append_subset.mpr ⟨List.Subset.trans (List.take_subset _ _) hdigits, ?_⟩
    exact List.cons_subset.mpr ⟨by decide, List.Subset.trans (List.drop_subset _ _) hdigits⟩
  · split
    · exact List.nil_subset _
    · exact List.cons_subset.mpr ⟨(List.cons_subset.mp hdigits).1, exponentText_subset first⟩
    · obtain ⟨hd, hds⟩ := List.cons_subset.mp hdigits
      refine List.cons_subset.mpr ⟨hd, List.cons_subset.mpr ⟨by decide, ?_⟩⟩
      exact List.append_subset.mpr ⟨hds, exponentText_subset first⟩

lemma text_subset (x : Binary64) : x.text ⊆ numberAlphabet := by
  cases x with
  | nan => exact of_decide_eq_true rfl
  | infinity negative => cases negative <;> exact of_decide_eq_true rfl
  | finite negative place =>
      have hmagnitude := lay_subset valueLayout (shortest place)
      cases negative with
      | true => exact List.cons_subset.mpr ⟨by decide, hmagnitude⟩
      | false => exact hmagnitude

lemma dropEndWhile_subset {α : Type} (p : α → Bool) (xs : List α) : dropEndWhile p xs ⊆ xs := by
  intro c hc
  rw [dropEndWhile, List.mem_reverse] at hc
  exact List.mem_reverse.mp ((List.dropWhile_suffix _).subset hc)

lemma dropEndZeros_subset {t : Text} (h : t ⊆ numberAlphabet) :
    dropEndZeros t ⊆ numberAlphabet := by
  have hshort := List.Subset.trans (dropEndWhile_subset (· == '0') t) h
  rw [dropEndZeros]
  dsimp only
  split_ifs
  · exact List.append_subset.mpr ⟨hshort, by decide⟩
  · exact hshort
  · exact h

/-- Numbers as arguments are written with the characters of numbers. -/
lemma numberArgument_subset (x : Binary64) : numberArgument x ⊆ numberAlphabet := by
  have htext := dropEndZeros_subset (text_subset x)
  rw [numberArgument]
  split
  · split_ifs
    · exact ofInt_subset _
    · exact htext
  · exact htext

/-! ### Numerals as they are read -/

/-- A character that is no part of a numeral and does not stand around one. -/
structure IsForeign (c : Char) : Prop where
  space : isNumeralSpace c = false
  plain : plainDigit c = c
  digit : isDigit c = false
  mark : c ∉ "_+-.eE".toList
  word : smallLetter c ∉ "infinitynan".toList

/-- The angle bracket is such a character, and so are letters of the words for no scale and an
automatic one. -/
lemma isForeign_of_mem {c : Char} (h : c ∈ ">oOuU".toList) : IsForeign c := by
  have hall : ∀ c ∈ ">oOuU".toList, isNumeralSpace c = false ∧ plainDigit c = c ∧
      isDigit c = false ∧ c ∉ "_+-.eE".toList ∧ smallLetter c ∉ "infinitynan".toList :=
    List.forall_iff_forall_mem.mp (by decide)
  obtain ⟨hspace, hplain, hdigit, hmark, hword⟩ := hall c h
  exact ⟨hspace, hplain, hdigit, hmark, hword⟩

/-- Where underscores are removed, every other character stays. -/
lemma mem_dropUnderscores {afterDigit : Bool} {t plain : Text} {c : Char} (hc : c ≠ '_')
    (h : dropUnderscores afterDigit t = some plain) (hmem : c ∈ t) : c ∈ plain := by
  induction afterDigit, t using dropUnderscores.induct generalizing plain with
  | case1 => simp at hmem
  | case2 afterDigit cs hgood ih =>
      rw [dropUnderscores, if_pos hgood] at h
      exact ih h (List.mem_of_ne_of_mem hc hmem)
  | case3 afterDigit cs hbad =>
      rw [dropUnderscores, if_neg hbad] at h
      simp at h
  | case4 afterDigit d cs hd ih =>
      rw [dropUnderscores] at h
      · obtain ⟨plain, hplain, rfl⟩ := Option.map_eq_some_iff.mp h
        rcases List.mem_cons.mp hmem with rfl | hmem
        · exact List.mem_cons_self
        · exact List.mem_cons_of_mem _ (ih hplain hmem)
      · exact hd

section Foreign

variable {c : Char} (hc : IsForeign c) {t : Text}

include hc

lemma IsForeign.ne {d : Char} (hd : d ∈ "_+-.eE".toList) : c ≠ d :=
  fun heq => hc.mark (heq ▸ hd)

lemma mem_splitSign (h : c ∈ t) : c ∈ (splitSign t).2 := by
  unfold splitSign
  split
  · exact List.mem_of_ne_of_mem (hc.ne (by decide)) h
  · exact List.mem_of_ne_of_mem (hc.ne (by decide)) h
  · exact h

/-- A text with such a character is not an exponent. -/
lemma readExponent_eq_none (h : c ∈ t) : readExponent? t = none := by
  cases t with
  | nil => simp at h
  | cons d cs =>
      rw [readExponent?]
      split_ifs with he
      · have hne : c ≠ d := by
          rcases Bool.or_eq_true_iff.mp he with he | he <;> rw [beq_iff_eq.mp he]
          · exact hc.ne (by decide)
          · exact hc.ne (by decide)
        have hbody := mem_splitSign hc (List.mem_of_ne_of_mem hne h)
        have hall : (splitSign cs).2.all isDigit = false := by
          rw [List.all_eq_false]
          exact ⟨c, hbody, Bool.eq_false_iff.mp hc.digit⟩
        simp [hall]
      · rfl

/-- A text with such a character is not an unsigned numeral. -/
lemma readMagnitude_eq_none (negative : Bool) (h : c ∈ t) : readMagnitude? negative t = none := by
  have hne : ∀ w : Text, w ⊆ "infinitynan".toList → (t.map smallLetter == w) = false := by
    intro w hw
    refine beq_false_of_ne ?_
    rintro rfl
    exact hc.word (hw (List.mem_map_of_mem h))
  have hrest : c ∈ (splitDigits t).2 := mem_dropWhile hc.digit h
  rw [readMagnitude?]
  simp only [hne _ (show "inf".toList ⊆ _ by decide),
    hne _ (show "infinity".toList ⊆ _ by decide), hne _ (show "nan".toList ⊆ _ by decide),
    Bool.or_false, Bool.false_eq_true, if_false]
  split
  · rename_i cs hcs
    rw [hcs] at hrest
    have hbehind : c ∈ (splitDigits cs).2 :=
      mem_dropWhile hc.digit (List.mem_of_ne_of_mem (hc.ne (by decide)) hrest)
    rw [readExponent_eq_none hc hbehind, Option.map_none, ite_self]
  · rw [readExponent_eq_none hc hrest, Option.map_none, ite_self]

/-- A text with such a character is not a numeral. -/
lemma readNumber_eq_none (h : c ∈ t) : readNumber? t = none := by
  rw [readNumber?]
  cases hplain : plainNumeral t with
  | none => rfl
  | some plain =>
      have hmem : c ∈ (trimBy isNumeralSpace t).map plainDigit :=
        List.mem_map.mpr ⟨c, mem_trimBy hc.space h, hc.plain⟩
      have hbody := mem_splitSign hc (mem_dropUnderscores (hc.ne (by decide)) hplain hmem)
      exact readMagnitude_eq_none hc _ hbody

end Foreign

end Galley
