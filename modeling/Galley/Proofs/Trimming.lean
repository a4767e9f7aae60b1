import Galley.Text.Basic
import Mathlib.Data.List.DropRight
import Mathlib.Data.List.TakeWhile
import Mathlib.Tactic

/-!
The ends of a text, and what is left when they are cut.

* `span_append`: a front that is cut off, and what it is cut off from;
* `exists_dropEndWhile`, `exists_trimBy`: what is cut off;
* `mem_trimBy`, `trimBy_subset`: what stays;
* `trimBy_eq_self`, `trimBy_concat`: ends that are not cut, and one that is;
* `prefix_dropEndWhile`, `dropEndWhile_eq_self_iff`: what stays when one end is cut;
* `IsTrimmed`: texts without spaces at their ends.
-/

namespace Galley

/-! ### What is cut off -/

section Trim

variable {α : Type} {p : α → Bool} {t : List α} {c : α}

lemma mem_dropWhile (hc : p c = false) (h : c ∈ t) : c ∈ t.dropWhile p := by
  rw [← List.takeWhile_append_dropWhile (p := p) (l := t)] at h
  rcases List.mem_append.mp h with h | h
  · simp [List.mem_takeWhile_imp h] at hc
  · exact h

lemma head_dropWhile (t : List α) : ∀ c ∈ (t.dropWhile p).head?, p c = false := by
  intro c hc
  have h := List.head?_dropWhile_not p t
  rw [Option.mem_def.mp hc] at h
  simpa using h

lemma takeWhile_of_head (h : ∀ c ∈ t.head?, p c = false) : t.takeWhile p = [] := by
  cases t with
  | nil => rfl
  | cons c t => rw [List.takeWhile_cons, h c rfl, if_neg Bool.false_ne_true]

lemma dropWhile_of_head (h : ∀ c ∈ t.head?, p c = false) : t.dropWhile p = t := by
  cases t with
  | nil => rfl
  | cons c t => rw [List.dropWhile_cons, h c rfl, if_neg Bool.false_ne_true]

/-- Members of the class are cut off in front of something else, and this is left. -/
lemma span_append {s : List α} (hs : ∀ c ∈ s, p c = true) (h : ∀ c ∈ t.head?, p c = false) :
    (s ++ t).takeWhile p = s ∧ (s ++ t).dropWhile p = t := by
  rw [List.takeWhile_append_of_pos hs, List.dropWhile_append_of_pos hs, takeWhile_of_head h,
    dropWhile_of_head h, List.append_nil]
  exact ⟨rfl, rfl⟩

/-- What is cut off the end are members of the class. -/
lemma exists_dropEndWhile (p : α → Bool) (t : List α) :
    ∃ back, t = dropEndWhile p t ++ back ∧ ∀ c ∈ back, p c = true := by
  have hsplit := List.takeWhile_append_dropWhile (p := p) (l := t.reverse)
  refine ⟨(t.reverse.takeWhile p).reverse, ?_,
    fun c hc => List.mem_takeWhile_imp (List.mem_reverse.mp hc)⟩
  rw [dropEndWhile, ← List.reverse_append, hsplit, List.reverse_reverse]

/-- What is cut off the ends are members of the class. -/
lemma exists_trimBy (p : α → Bool) (t : List α) :
    ∃ front back, t = front ++ (trimBy p t ++ back) ∧ (∀ c ∈ front, p c = true) ∧
      ∀ c ∈ back, p c = true := by
  obtain ⟨back, hsplit, hback⟩ := exists_dropEndWhile p (t.dropWhile p)
  refine ⟨t.takeWhile p, back, ?_, fun c => List.mem_takeWhile_imp, hback⟩
  rw [trimBy, ← hsplit, List.takeWhile_append_dropWhile]

/-! ### What stays -/

lemma mem_trimBy (hc : p c = false) (h : c ∈ t) : c ∈ trimBy p t := by
  rw [trimBy, dropEndWhile, List.mem_reverse]
  exact mem_dropWhile hc (List.mem_reverse.mpr (mem_dropWhile hc h))

lemma trimBy_subset (p : α → Bool) (t : List α) : trimBy p t ⊆ t := by
  obtain ⟨front, back, heq, -⟩ := exists_trimBy p t
  intro c hc
  rw [heq]
  exact List.mem_append_right _ (List.mem_append_left _ hc)

/-- A text that neither begins nor ends in a class of characters is not cut. -/
lemma trimBy_eq_self (hhead : ∀ c ∈ t.head?, p c = false) (hlast : ∀ c ∈ t.getLast?, p c = false) :
    trimBy p t = t := by
  rw [trimBy, dropWhile_of_head hhead, dropEndWhile, dropWhile_of_head, List.reverse_reverse]
  intro c hc
  rw [List.head?_reverse] at hc
  exact hlast c hc

/-- One more member of the class at the end is cut off as well. -/
lemma trimBy_concat (hc : p c = true) (t : List α) : trimBy p (t ++ [c]) = trimBy p t := by
  rw [trimBy, trimBy, List.dropWhile_append]
  split_ifs with hempty
  · rw [List.isEmpty_iff.mp hempty, List.dropWhile_cons, if_pos hc, List.dropWhile_nil]
  · rw [dropEndWhile, dropEndWhile, List.reverse_append, List.reverse_singleton,
      List.singleton_append, List.dropWhile_cons, if_pos hc]

/-! ### One end -/

lemma prefix_dropEndWhile (p : α → Bool) (t : List α) : dropEndWhile p t <+: t :=
  List.rdropWhile_prefix p t

lemma dropEndWhile_eq_self_iff : dropEndWhile p t = t ↔ ∀ c ∈ t.getLast?, p c = false := by
  have h := List.rdropWhile_eq_self_iff (p := p) (l := t)
  rw [dropEndWhile, ← List.rdropWhile, h]
  constructor
  · intro hlast c hc
    obtain ⟨hne, rfl⟩ := List.mem_getLast?_eq_getLast hc
    simpa using hlast hne
  · intro hlast hne
    simpa using hlast _ (List.getLast_mem_getLast? hne)

end Trim

/-! ### Texts without spaces at their ends -/

/-- A text neither begins nor ends in a space. -/
structure IsTrimmed (t : Text) : Prop where
  head : ∀ c ∈ t.head?, isSpace c = false
  last : ∀ c ∈ t.getLast?, isSpace c = false

lemma IsTrimmed.trim {t : Text} (h : IsTrimmed t) : t.trim = t := trimBy_eq_self h.head h.last

lemma isTrimmed_trim (t : Text) : IsTrimmed t.trim := by
  refine ⟨fun c hc => ?_, fun c hc => ?_⟩
  · -- what is cut off the end leaves the beginning as it is
    have hbegin : t.trim <+: t.dropWhile isSpace := by
      rw [Text.trim, trimBy, dropEndWhile, ← List.reverse_suffix, List.reverse_reverse]
      exact List.dropWhile_suffix _
    obtain ⟨rest, hrest⟩ := hbegin
    refine head_dropWhile t c ?_
    rw [← hrest, List.head?_append, Option.mem_def.mp hc]
    rfl
  · rw [Text.trim, trimBy, dropEndWhile, List.getLast?_reverse] at hc
    exact head_dropWhile _ c hc

end Galley
