import Galley.Text.Basic
import Mathlib.Tactic

/-!
Pieces of a text: where they are found, and how they are joined.

* `firstOffset_stands`, `exists_firstOffset`: what is found stands there, and what stands somewhere
  is found there or before;
* `infix_append_cons`: a piece that does not hold a separator lies on one side of it;
* `firstOffset_append_cons`: so what stands behind a separator is found there, unless it stands in
  front of it as well;
* `infix_trimBy`: cutting the ends of a text takes no piece away;
* `joinWith_cons`: pieces with a separator between each two of them, from the first one on;
* `splitAt_append_cons`, `splitAt_joinWith`: texts are cut at their separators;
* `unlines`: lines, each with a line feed at its end.
-/

namespace Galley

/-! ### What is found -/

lemma firstOffset_le {α : Type} [BEq α] {piece xs : List α} {n : Nat}
    (h : firstOffset? piece xs = some n) : n ≤ xs.length := by
  induction xs generalizing n with
  | nil =>
      rw [firstOffset?] at h
      split_ifs at h
      exact (Option.some.inj h).ge
  | cons x xs ih =>
      rw [firstOffset?] at h
      split_ifs at h
      · exact Option.some.inj h ▸ Nat.zero_le _
      · obtain ⟨m, hm, rfl⟩ := Option.map_eq_some_iff.mp h
        exact Nat.succ_le_succ (ih hm)

/-- What is found stands there. -/
lemma firstOffset_stands {α : Type} [BEq α] [LawfulBEq α] {piece xs : List α} {n : Nat}
    (h : firstOffset? piece xs = some n) : piece <+: xs.drop n := by
  induction xs generalizing n with
  | nil =>
      rw [firstOffset?] at h
      split_ifs at h with hnil
      rw [List.isEmpty_iff.mp hnil]
      exact List.nil_prefix
  | cons x xs ih =>
      rw [firstOffset?] at h
      split_ifs at h with hhere
      · obtain rfl := Option.some.inj h
        exact List.isPrefixOf_iff_prefix.mp hhere
      · obtain ⟨m, hm, rfl⟩ := Option.map_eq_some_iff.mp h
        exact ih hm

/-- What stands somewhere is found there or before. -/
lemma exists_firstOffset {α : Type} [BEq α] [LawfulBEq α] {piece xs : List α}
    (front : List α) (h : piece <+: xs) :
    ∃ n ≤ front.length, firstOffset? piece (front ++ xs) = some n := by
  induction front with
  | nil =>
      refine ⟨0, le_rfl, ?_⟩
      cases xs with
      | nil => simp [firstOffset?, List.prefix_nil.mp h]
      | cons x xs => simp [firstOffset?, List.isPrefixOf_iff_prefix.mpr h]
  | cons x front ih =>
      obtain ⟨n, hn, hfound⟩ := ih
      rw [List.cons_append, firstOffset?, hfound]
      split_ifs
      · exact ⟨0, Nat.zero_le _, rfl⟩
      · exact ⟨n + 1, Nat.succ_le_succ hn, rfl⟩

/-! ### Pieces beside a separator -/

section Pieces

variable {α : Type} {piece u v : List α} {c : α}

lemma prefix_append_cons (hc : c ∉ piece) : piece <+: u ++ c :: v ↔ piece <+: u := by
  induction u generalizing piece with
  | nil =>
      cases piece with
      | nil => simp
      | cons d ds =>
          have hd : d ≠ c := fun h => hc (h ▸ List.mem_cons_self)
          simp [List.cons_prefix_cons, hd]
  | cons x u ih =>
      cases piece with
      | nil => simp
      | cons d ds =>
          rw [List.cons_append, List.cons_prefix_cons, List.cons_prefix_cons,
            ih fun h => hc (List.mem_cons_of_mem d h)]

/-- A piece that does not hold a separator lies on one side of it. -/
lemma infix_append_cons (hc : c ∉ piece) :
    piece <:+: u ++ c :: v ↔ piece <:+: u ∨ piece <:+: v := by
  induction u with
  | nil =>
      rw [List.nil_append, List.infix_cons_iff, List.infix_nil, ← List.prefix_nil]
      exact or_congr_left (prefix_append_cons (u := []) hc)
  | cons x u ih =>
      rw [List.cons_append, List.infix_cons_iff, List.infix_cons_iff, ih, ← List.cons_append,
        prefix_append_cons hc, or_assoc]

lemma infix_cons_of_notMem (hc : c ∉ piece) : piece <:+: c :: v ↔ piece <:+: v := by
  have h := infix_append_cons (u := []) (v := v) hc
  rw [List.nil_append] at h
  refine h.trans (or_iff_right_of_imp fun hnil => ?_)
  rw [List.infix_nil.mp hnil]
  exact List.nil_infix

/-- What stands behind a separator is found there, unless it stands in front of it as well. -/
lemma firstOffset_append_cons [BEq α] [LawfulBEq α] (hc : c ∉ piece) (hv : piece <+: v) :
    firstOffset? piece (u ++ c :: v) = some (u.length + 1) ↔ ¬piece <:+: u := by
  induction u with
  | nil =>
      have hhere := prefix_append_cons (u := []) (v := v) hc
      rw [List.nil_append] at hhere
      obtain ⟨n, hn, hfound⟩ := exists_firstOffset [] hv
      obtain rfl : n = 0 := Nat.le_zero.mp hn
      rw [List.nil_append] at hfound
      rw [List.nil_append, firstOffset?, hfound, List.infix_nil, ← List.prefix_nil, ← hhere]
      split_ifs with hprefix
      · simpa using List.isPrefixOf_iff_prefix.mp hprefix
      · simpa using fun h => hprefix (List.isPrefixOf_iff_prefix.mpr h)
  | cons x u ih =>
      have hhere : piece <+: x :: (u ++ c :: v) ↔ piece <+: x :: u :=
        prefix_append_cons (u := x :: u) hc
      rw [List.cons_append, firstOffset?, List.infix_cons_iff, ← hhere]
      split_ifs with hprefix
      · have hbefore := List.isPrefixOf_iff_prefix.mp hprefix
        simp [hbefore]
      · have hbefore : ¬piece <+: x :: (u ++ c :: v) :=
          fun h => hprefix (List.isPrefixOf_iff_prefix.mpr h)
        rw [not_or, ← ih, Option.map_eq_some_iff]
        simp [hbefore]

lemma infix_dropWhile {p : α → Bool} {t : List α} (hp : ∀ c ∈ piece, p c = false) :
    piece <:+: t.dropWhile p ↔ piece <:+: t := by
  induction t with
  | nil => rfl
  | cons c t ih =>
      rw [List.dropWhile_cons]
      split_ifs with hc
      · rw [ih, infix_cons_of_notMem fun hmem => by simp [hp c hmem] at hc]
      · rfl

lemma infix_trimBy {p : α → Bool} {t : List α} (hp : ∀ c ∈ piece, p c = false) :
    piece <:+: trimBy p t ↔ piece <:+: t := by
  have hback : ∀ c ∈ piece.reverse, p c = false := fun c hc => hp c (List.mem_reverse.mp hc)
  rw [trimBy, dropEndWhile, ← List.reverse_infix, List.reverse_reverse, infix_dropWhile hback,
    List.reverse_infix, infix_dropWhile hp]

lemma occursIn_eq_false [BEq α] [LawfulBEq α] {t : List α} :
    occursIn piece t = false ↔ ¬piece <:+: t := by
  rw [occursIn, Option.isSome_eq_false_iff, Option.isNone_iff_eq_none]
  constructor
  · rintro hnone ⟨front, back, rfl⟩
    obtain ⟨n, -, hfound⟩ := exists_firstOffset front (List.prefix_append piece back)
    rw [← List.append_assoc, hnone] at hfound
    simp at hfound
  · intro hnot
    rw [Option.eq_none_iff_forall_ne_some]
    intro n hfound
    exact hnot ((firstOffset_stands hfound).isInfix.trans (List.drop_suffix n t).isInfix)

lemma occursIn_eq_true [BEq α] [LawfulBEq α] {t : List α} :
    occursIn piece t = true ↔ piece <:+: t := by
  rw [← not_iff_not, Bool.not_eq_true, occursIn_eq_false]

lemma exists_mem_append {P : α → Prop} :
    (∃ a ∈ u ++ v, P a) ↔ (∃ a ∈ u, P a) ∨ ∃ a ∈ v, P a := by
  simp only [List.mem_append, or_and_right, exists_or]

end Pieces

/-! ### Joined pieces -/

lemma joinWith_cons_cons (separator piece next : Text) (pieces : List Text) :
    joinWith separator (piece :: next :: pieces) =
      piece ++ (separator ++ joinWith separator (next :: pieces)) := by
  simp [joinWith, List.intercalate]

/-- Behind the first piece, each one comes with a separator in front. -/
lemma joinWith_cons (separator piece : Text) (pieces : List Text) :
    joinWith separator (piece :: pieces) = piece ++ pieces.flatMap (separator ++ ·) := by
  induction pieces generalizing piece with
  | nil => simp [joinWith]
  | cons next pieces ih =>
      rw [joinWith_cons_cons, ih, List.flatMap_cons, List.append_assoc]

/-! ### Texts cut into pieces -/

section Cut

variable {p : Char → Bool} {c : Char}

lemma splitAt_ne_nil (p : Char → Bool) (t : Text) : splitAt p t ≠ [] := by
  cases t with
  | nil => exact List.cons_ne_nil _ _
  | cons d t =>
      rw [splitAt]
      split
      · exact List.cons_ne_nil _ _
      · split_ifs <;> exact List.cons_ne_nil _ _

lemma splitAt_of_forall {t : Text} (h : ∀ d ∈ t, p d = false) : splitAt p t = [t] := by
  induction t with
  | nil => rfl
  | cons d t ih =>
      rw [splitAt, ih fun e he => h e (List.mem_cons_of_mem _ he)]
      simp [h d List.mem_cons_self]

/-- Texts on the two sides of a separator are cut on their own. -/
lemma splitAt_append_cons (hc : p c = true) (t u : Text) :
    splitAt p (t ++ c :: u) = splitAt p t ++ splitAt p u := by
  induction t with
  | nil =>
      obtain ⟨piece, pieces, hu⟩ := List.exists_cons_of_ne_nil (splitAt_ne_nil p u)
      simp [splitAt, hu, hc]
  | cons d t ih =>
      obtain ⟨piece, pieces, ht⟩ := List.exists_cons_of_ne_nil (splitAt_ne_nil p t)
      rw [List.cons_append, splitAt, splitAt, ih, ht]
      simp only [List.cons_append]
      split_ifs <;> rfl

/-- Joined pieces are cut where they were joined. -/
lemma splitAt_joinWith (hc : p c = true) {pieces : List Text} (hne : pieces ≠ [])
    (h : ∀ piece ∈ pieces, ∀ d ∈ piece, p d = false) : splitAt p (joinWith [c] pieces) = pieces := by
  induction pieces with
  | nil => contradiction
  | cons piece pieces ih =>
      obtain ⟨hpiece, hpieces⟩ := List.forall_mem_cons.mp h
      cases pieces with
      | nil => simpa [joinWith] using splitAt_of_forall hpiece
      | cons next pieces =>
          rw [joinWith_cons_cons, List.singleton_append, splitAt_append_cons hc,
            splitAt_of_forall hpiece, ih (List.cons_ne_nil _ _) hpieces, List.singleton_append]

end Cut

/-! ### Lines -/

/-- Lines, each with a line feed at its end. -/
def unlines (lines : List Text) : Text := lines.flatMap (· ++ ['\n'])

@[simp]
lemma unlines_cons (line : Text) (lines : List Text) :
    unlines (line :: lines) = line ++ '\n' :: unlines lines := by
  simp [unlines]

lemma unlines_append (lines lines' : List Text) :
    unlines (lines ++ lines') = unlines lines ++ unlines lines' :=
  List.flatMap_append

lemma ne_feed {line : Text} (h : '\n' ∉ line) : ∀ c ∈ line, (c == '\n') = false := fun c hc => by
  simpa using fun heq : c = '\n' => h (heq ▸ hc)

/-- Lines are read back from their text. -/
lemma splitAt_unlines_append {lines : List Text} (h : ∀ line ∈ lines, '\n' ∉ line) (t : Text) :
    splitAt (· == '\n') (unlines lines ++ t) = lines ++ splitAt (· == '\n') t := by
  induction lines with
  | nil => rfl
  | cons line lines ih =>
      obtain ⟨hline, hlines⟩ := List.forall_mem_cons.mp h
      rw [unlines_cons, List.append_assoc, List.cons_append, splitAt_append_cons rfl,
        splitAt_of_forall (ne_feed hline), ih hlines, List.singleton_append, List.cons_append]

/-- Joined lines lack the line feed of the last one. -/
lemma joinWith_append_feed {lines : List Text} (hne : lines ≠ []) :
    joinWith ['\n'] lines ++ ['\n'] = unlines lines := by
  induction lines with
  | nil => contradiction
  | cons line lines ih =>
      cases lines with
      | nil => simp [joinWith, unlines]
      | cons next lines =>
          rw [joinWith_cons_cons, unlines_cons, ← ih (List.cons_ne_nil _ _)]
          simp

end Galley
