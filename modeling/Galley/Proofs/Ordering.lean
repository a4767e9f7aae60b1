import Galley.Ordering
import Mathlib.Tactic

/-!
Sorting by insertion.

* `orderBy_perm`: nothing is lost and nothing is added;
* `orderBy_pairwise`, `orderBy_key_pairwise`: the members come out in order;
* `orderBy_of_pairwise`: members that are in order stay where they are;
* `orderBy_filter`, `orderBy_key_filter`: members of equal rank keep their order;
* `split_at_key`: members in order, below a key, at it and above it;
* `orderBy_key_congr`: so the order of members of different ranks does not matter;
* `mem_orderDistinct`, `orderDistinct_pairwise`: sorting with each member once.
-/

namespace Galley

section Ordering

variable {α : Type} (le : α → α → Bool)

lemma insertOrdered_perm (x : α) (xs : List α) : (insertOrdered le x xs).Perm (x :: xs) := by
  induction xs with
  | nil => exact List.Perm.refl _
  | cons y ys ih =>
      rw [insertOrdered]
      split
      · exact List.Perm.refl _
      · exact (ih.cons y).trans (List.Perm.swap x y ys)

/-- Sorting keeps the members. -/
lemma orderBy_perm (xs : List α) : (orderBy le xs).Perm xs := by
  induction xs with
  | nil => exact List.Perm.refl _
  | cons x xs ih => exact (insertOrdered_perm le x _).trans (ih.cons x)

variable {le}

lemma insertOrdered_pairwise (htotal : ∀ a b, le a b = true ∨ le b a = true)
    (htrans : ∀ a b c, le a b = true → le b c = true → le a c = true) (x : α) {xs : List α}
    (h : xs.Pairwise fun a b => le a b = true) :
    (insertOrdered le x xs).Pairwise fun a b => le a b = true := by
  induction xs with
  | nil => simp [insertOrdered]
  | cons y ys ih =>
      obtain ⟨hy, hys⟩ := List.pairwise_cons.mp h
      rw [insertOrdered]
      split_ifs with hxy
      · refine List.pairwise_cons.mpr ⟨fun z hz => ?_, h⟩
        rcases List.mem_cons.mp hz with rfl | hz
        · exact hxy
        · exact htrans x y z hxy (hy z hz)
      · refine List.pairwise_cons.mpr ⟨fun z hz => ?_, ih hys⟩
        rcases List.mem_cons.mp ((insertOrdered_perm le x ys).mem_iff.mp hz) with rfl | hz
        · exact (htotal z y).resolve_left hxy
        · exact hy z hz

/-- The members come out in the order of `le`. -/
lemma orderBy_pairwise (htotal : ∀ a b, le a b = true ∨ le b a = true)
    (htrans : ∀ a b c, le a b = true → le b c = true → le a c = true) (xs : List α) :
    (orderBy le xs).Pairwise fun a b => le a b = true := by
  induction xs with
  | nil => exact List.Pairwise.nil
  | cons x xs ih => exact insertOrdered_pairwise htotal htrans x ih

/-- Sorted by a key, the members come out with their keys in order. -/
lemma orderBy_key_pairwise {β : Type} [LinearOrder β] (key : α → β) (xs : List α) :
    (orderBy (fun a b => key a ≤ key b) xs).Pairwise fun a b => key a ≤ key b := by
  refine (orderBy_pairwise ?_ ?_ xs).imp of_decide_eq_true
  · intro a b
    simp only [decide_eq_true_eq]
    exact le_total _ _
  · intro a b c
    simp only [decide_eq_true_eq]
    exact le_trans

/-- Members that are in order stay where they are. -/
lemma orderBy_of_pairwise {xs : List α} (h : xs.Pairwise fun a b => le a b = true) :
    orderBy le xs = xs := by
  induction xs with
  | nil => rfl
  | cons x xs ih =>
      obtain ⟨hx, hxs⟩ := List.pairwise_cons.mp h
      rw [orderBy, ih hxs]
      cases xs with
      | nil => rfl
      | cons y ys => rw [insertOrdered, if_pos (hx y List.mem_cons_self)]

/-! ### Members of equal rank -/

lemma insertOrdered_filter {p : α → Bool}
    (hp : ∀ a b, p a = true → p b = true → le a b = true) (x : α) (xs : List α) :
    (insertOrdered le x xs).filter p = (x :: xs).filter p := by
  induction xs with
  | nil => rfl
  | cons y ys ih =>
      rw [insertOrdered]
      split_ifs with hxy
      · rfl
      · rw [List.filter_cons, ih]
        -- the member that goes in front has another rank
        by_cases hx : p x = true
        · have hy : ¬p y = true := fun hy => hxy (hp x y hx hy)
          rw [if_neg hy, List.filter_cons_of_pos hx, List.filter_cons_of_pos hx,
            List.filter_cons_of_neg hy]
        · rw [List.filter_cons_of_neg hx, List.filter_cons_of_neg hx, List.filter_cons]

/-- Members that may all precede each other keep their order. -/
lemma orderBy_filter {p : α → Bool} (hp : ∀ a b, p a = true → p b = true → le a b = true)
    (xs : List α) : (orderBy le xs).filter p = xs.filter p := by
  induction xs with
  | nil => rfl
  | cons x xs ih =>
      rw [orderBy, insertOrdered_filter hp, List.filter_cons, List.filter_cons, ih]

section Key

variable {β : Type} [LinearOrder β] {key : α → β} {xs ys : List α}

lemma mem_iff_of_filter_key (h : ∀ k, xs.filter (key · = k) = ys.filter (key · = k)) (z : α) :
    z ∈ xs ↔ z ∈ ys := by
  have hz : z ∈ xs.filter (key · = key z) ↔ z ∈ ys.filter (key · = key z) := by rw [h]
  simpa using hz

/-- The members of each key tell a list in which the keys are in order. -/
lemma eq_of_filter_key (hxs : xs.Pairwise fun a b => key a ≤ key b)
    (hys : ys.Pairwise fun a b => key a ≤ key b)
    (h : ∀ k, xs.filter (key · = k) = ys.filter (key · = k)) : xs = ys := by
  have hmem := mem_iff_of_filter_key h
  induction xs generalizing ys with
  | nil => exact (List.eq_nil_iff_forall_not_mem.mpr fun z => (hmem z).not.mp (by simp)).symm
  | cons x xs ih =>
      obtain ⟨y, ys, rfl⟩ := List.exists_cons_of_ne_nil
        (List.ne_nil_of_mem ((hmem x).mp List.mem_cons_self))
      obtain ⟨hx, hxrest⟩ := List.pairwise_cons.mp hxs
      obtain ⟨hy, hyrest⟩ := List.pairwise_cons.mp hys
      have hkey : key x = key y := by
        refine le_antisymm ?_ ?_
        · rcases List.mem_cons.mp ((hmem y).mpr List.mem_cons_self) with rfl | hin
          · exact le_rfl
          · exact hx y hin
        · rcases List.mem_cons.mp ((hmem x).mp List.mem_cons_self) with rfl | hin
          · exact le_rfl
          · exact hy x hin
      have hfirst := h (key x)
      rw [List.filter_cons_of_pos (by simp), List.filter_cons_of_pos (by simp [hkey])] at hfirst
      obtain ⟨rfl, -⟩ := List.cons.inj hfirst
      have hrest : ∀ k, xs.filter (key · = k) = ys.filter (key · = k) := fun k => by
        have hk := h k
        simp only [List.filter_cons] at hk
        split_ifs at hk
        · exact (List.cons.inj hk).2
        · exact hk
      rw [ih hxrest hyrest hrest (mem_iff_of_filter_key hrest)]

/-- A list in which the keys are in order holds the members below a key, at it and above it one
behind the other. -/
lemma split_at_key (key : α → β) (k : β) (h : xs.Pairwise fun a b => key a ≤ key b) :
    xs = xs.filter (key · < k) ++ (xs.filter (key · = k) ++ xs.filter (k < key ·)) := by
  induction xs with
  | nil => rfl
  | cons x xs ih =>
      obtain ⟨hx, hxs⟩ := List.pairwise_cons.mp h
      have hnone : ∀ j, j ≤ key x → xs.filter (key · < j) = [] := fun j hj =>
        List.filter_eq_nil_iff.mpr fun y hy => by simpa using hj.trans (hx y hy)
      have hsplit := ih hxs
      rcases lt_trichotomy (key x) k with hlt | heq | hgt
      · rw [List.filter_cons_of_pos (by simpa using hlt),
          List.filter_cons_of_neg (by simpa using hlt.ne),
          List.filter_cons_of_neg (by simpa using hlt.le), List.cons_append, ← hsplit]
      · rw [hnone k heq.ge, List.nil_append] at hsplit
        rw [List.filter_cons_of_neg (by simpa using heq.ge), hnone k heq.ge,
          List.filter_cons_of_pos (by simpa using heq),
          List.filter_cons_of_neg (by simpa using heq.le), List.nil_append, List.cons_append,
          ← hsplit]
      · have hequal : xs.filter (key · = k) = [] :=
          List.filter_eq_nil_iff.mpr fun y hy => by simpa using (hgt.trans_le (hx y hy)).ne'
        rw [hnone k hgt.le, hequal, List.nil_append, List.nil_append] at hsplit
        rw [List.filter_cons_of_neg (by simpa using hgt.le), hnone k hgt.le,
          List.filter_cons_of_neg (by simpa using hgt.ne'), hequal,
          List.filter_cons_of_pos (by simpa using hgt), List.nil_append, List.nil_append,
          ← hsplit]

/-- Sorted by a key, the members of each key keep their order. -/
lemma orderBy_key_filter (key : α → β) (xs : List α) (k : β) :
    (orderBy (fun a b => key a ≤ key b) xs).filter (key · = k) = xs.filter (key · = k) := by
  refine orderBy_filter ?_ xs
  simp only [decide_eq_true_eq]
  exact fun a b ha hb => (ha.trans hb.symm).le

/-- Sorted by a key, members of different keys may be listed in any order. -/
lemma orderBy_key_congr (h : ∀ k, xs.filter (key · = k) = ys.filter (key · = k)) :
    orderBy (fun a b => key a ≤ key b) xs = orderBy (fun a b => key a ≤ key b) ys := by
  refine eq_of_filter_key (orderBy_key_pairwise key xs) (orderBy_key_pairwise key ys) fun k => ?_
  rw [orderBy_key_filter, orderBy_key_filter, h]

end Key

end Ordering

section Distinct

variable {α : Type} [BEq α] [LawfulBEq α] {lt : α → α → Bool} {x z : α}

lemma mem_insertDistinct {xs : List α} : z ∈ insertDistinct lt x xs ↔ z = x ∨ z ∈ xs := by
  induction xs with
  | nil => simp [insertDistinct]
  | cons y ys ih =>
      rw [insertDistinct]
      split_ifs with hxy
      · rw [eq_of_beq hxy, List.mem_cons, or_self_left]
      · exact List.mem_cons
      · rw [List.mem_cons, ih, List.mem_cons, or_left_comm]

@[simp]
lemma mem_orderDistinct {xs : List α} : z ∈ orderDistinct lt xs ↔ z ∈ xs := by
  induction xs with
  | nil => exact Iff.rfl
  | cons x xs ih =>
      rw [List.mem_cons, ← ih]
      exact mem_insertDistinct

lemma insertDistinct_pairwise (hconnex : ∀ a b, a ≠ b → lt a b = true ∨ lt b a = true)
    (htrans : ∀ a b c, lt a b = true → lt b c = true → lt a c = true) {xs : List α}
    (h : xs.Pairwise fun a b => lt a b = true) :
    (insertDistinct lt x xs).Pairwise fun a b => lt a b = true := by
  induction xs with
  | nil => simp [insertDistinct]
  | cons y ys ih =>
      obtain ⟨hy, hys⟩ := List.pairwise_cons.mp h
      rw [insertDistinct]
      split_ifs with hxy hlt
      · exact h
      · refine List.pairwise_cons.mpr ⟨fun z hz => ?_, h⟩
        rcases List.mem_cons.mp hz with rfl | hz
        · exact hlt
        · exact htrans x y z hlt (hy z hz)
      · refine List.pairwise_cons.mpr ⟨fun z hz => ?_, ih hys⟩
        rcases mem_insertDistinct.mp hz with rfl | hz
        · exact (hconnex z y fun heq => hxy (beq_iff_eq.mpr heq)).resolve_left hlt
        · exact hy z hz

/-- The members come out in the strict order of `lt`. -/
lemma orderDistinct_pairwise (hconnex : ∀ a b, a ≠ b → lt a b = true ∨ lt b a = true)
    (htrans : ∀ a b c, lt a b = true → lt b c = true → lt a c = true) (xs : List α) :
    (orderDistinct lt xs).Pairwise fun a b => lt a b = true := by
  induction xs with
  | nil => exact List.Pairwise.nil
  | cons x xs ih => exact insertDistinct_pairwise hconnex htrans ih

end Distinct

end Galley
