import Galley.Proofs.Weave

/-!
Splicing, as a text that is put together from left to right.

* `Edit.Within`, `within_of_fits`: each edit that is applied finds its span in the text as it is by
  then, so none is refused;
* `splice_congr`: edits with different starts may be listed in any order;
* `assemble_append`, `assemble_same_start`: what stands in front of an edit when the text is put
  together, and what the edits at one start put in;
* `splice_assembles`: the whole account of a spliced text.
-/

namespace Galley

/-! ### No edit is refused -/

/-- The span of an edit is one of a text. -/
def Edit.Within (e : Edit) (text : Text) : Prop :=
  0 ≤ e.start ∧ e.start ≤ e.stop ∧ e.stop ≤ text.length

/-- Edits that fit, from one of them on. -/
lemma Fits.from_edit {low high : Int} {front es : List Edit} {e : Edit}
    (h : Fits low high (front ++ e :: es)) :
    low ≤ e.start ∧ e.start ≤ e.stop ∧ Fits e.stop high es := by
  induction front generalizing low with
  | nil => exact h
  | cons d front ih =>
      obtain ⟨hstart, hstop, hrest⟩ := h
      obtain ⟨hlow, hedit⟩ := ih hrest
      exact ⟨(hstart.trans hstop).trans hlow, hedit⟩

/-- Edits behind an edit leave the text in front of them as it is, so the edit finds its span. -/
lemma within_of_fits {text : Text} {front es : List Edit} {e : Edit}
    (h : Fits 0 text.length (front ++ e :: es)) : e.Within (es.foldr Edit.apply text) := by
  obtain ⟨hlow, hspan, hrest⟩ := h.from_edit
  have hend := hrest.le
  have hbehind := foldr_applyWith Edit.replacement text es e.stop.toNat (by
    rwa [Int.toNat_of_nonneg (hlow.trans hspan)])
  refine ⟨hlow, hspan, ?_⟩
  rw [Edit.apply_eq, hbehind, List.length_append, List.length_take]
  omega

/-! ### The order of edits -/

lemma orderEdits_perm (edits : List Edit) : (orderEdits edits).Perm edits := orderBy_perm _ edits

/-- Edits with different starts may be listed in any order. -/
lemma splice_congr {edits edits' : List Edit}
    (h : ∀ start, edits.filter (·.start = start) = edits'.filter (·.start = start))
    (text : Text) : splice text edits = splice text edits' :=
  congrArg (List.foldr Edit.apply text) (orderBy_key_congr h)

/-- Putting edits in order changes nothing. -/
lemma splice_orderEdits {text : Text} {edits : List Edit}
    (h : Fits 0 text.length (orderEdits edits)) :
    splice text (orderEdits edits) = splice text edits := by
  rw [splice, h.orderEdits_eq, ← splice]

/-- The text grows by what the edits add to it. -/
lemma length_splice_of_order {text : Text} {edits : List Edit}
    (h : Fits 0 text.length (orderEdits edits)) :
    ((splice text edits).length : Int) = text.length + (edits.map Edit.growth).sum := by
  rw [← splice_orderEdits h, length_splice h]
  exact congrArg (_ + ·) ((orderEdits_perm edits).map Edit.growth).sum_eq

/-! ### What stands in front of an edit -/

/-- In front of an edit stands what the edits in front of it have left, and the text up to its
start. -/
lemma assemble_append {text : Text} {pos : Nat} {front es : List Edit} {e : Edit}
    (h : Fits pos text.length (front ++ e :: es)) :
    ∃ before, assemble Edit.replacement text pos (front ++ e :: es) =
        before ++ assemble Edit.replacement text e.start.toNat (e :: es) ∧
      (before.length : Int) = e.start - pos + (front.map Edit.growth).sum := by
  induction front generalizing pos with
  | nil =>
      obtain ⟨hlow, hspan, hrest⟩ := h
      have hend := hrest.le
      refine ⟨(text.drop pos).take (e.start.toNat - pos), ?_, ?_⟩
      · rw [List.nil_append, assemble, assemble, Nat.sub_self, List.take_zero, List.nil_append,
          List.append_assoc]
      · rw [List.length_take, List.length_drop, List.map_nil, List.sum_nil]
        omega
  | cons d front ih =>
      obtain ⟨hlow, hspan, hrest⟩ := h
      have hend := hrest.le
      have hstop : ((d.stop.toNat : Nat) : Int) = d.stop := Int.toNat_of_nonneg (by omega)
      obtain ⟨before, hbefore, hlength⟩ := ih (by rwa [hstop])
      refine ⟨(text.drop pos).take (d.start.toNat - pos) ++ d.replacement ++ before, ?_, ?_⟩
      · rw [List.cons_append, assemble, hbefore, List.append_assoc _ before]
      · rw [List.length_append, List.length_append, List.length_take, List.length_drop,
          List.map_cons, List.sum_cons, Edit.growth]
        push_cast
        omega

/-- Edits at one start are put in one behind the other, as they come. -/
lemma assemble_same_start (text : Text) {high : Int} {pos : Nat} {es back : List Edit}
    (hstart : ∀ e ∈ es, e.start = pos) (h : Fits pos high (es ++ back)) :
    ∃ behind, assemble Edit.replacement text pos (es ++ back) =
      es.flatMap Edit.replacement ++ behind := by
  induction es with
  | nil => exact ⟨_, rfl⟩
  | cons e es ih =>
      obtain ⟨he, hes⟩ := List.forall_mem_cons.mp hstart
      obtain ⟨-, hspan, hrest⟩ := h
      have hfirst : (text.drop pos).take (e.start.toNat - pos) = [] := by
        rw [he, Int.toNat_natCast, Nat.sub_self, List.take_zero]
      rw [List.cons_append, assemble, hfirst, List.nil_append, List.flatMap_cons]
      cases es with
      | nil =>
          refine ⟨assemble Edit.replacement text e.stop.toNat back, ?_⟩
          rw [List.flatMap_nil, List.append_nil, List.nil_append]
      | cons d es =>
          -- the next edit begins where this one does, so this one only inserts
          have hnext := hrest.1
          have hd := hes d List.mem_cons_self
          have hstop : e.stop = pos := by omega
          obtain ⟨behind, hbehind⟩ := ih hes (by rwa [hstop] at hrest)
          refine ⟨behind, ?_⟩
          rw [hstop, Int.toNat_natCast, hbehind, List.append_assoc]

/-- The replacements of the edits at one start stand one behind the other, as they are listed; in
front of them stands the text up to there, grown by the edits in front. -/
lemma splice_at_start {text : Text} {edits : List Edit} {e : Edit}
    (h : Fits 0 text.length (orderEdits edits)) (he : e ∈ edits) :
    ∃ before behind, splice text edits =
        before ++ ((edits.filter (·.start = e.start)).flatMap Edit.replacement ++ behind) ∧
      (before.length : Int) =
        e.start + ((edits.filter (·.start < e.start)).map Edit.growth).sum := by
  have hsplit := split_at_key Edit.start e.start (orderBy_key_pairwise Edit.start edits)
  rw [orderBy_key_filter, ← orderEdits] at hsplit
  have hfront := ((orderEdits_perm edits).filter (·.start < e.start)).map Edit.growth
  generalize (orderEdits edits).filter (·.start < e.start) = front at hsplit hfront
  generalize (orderEdits edits).filter (e.start < ·.start) = back at hsplit
  have hsame : ∀ d ∈ edits.filter (·.start = e.start), d.start = e.start := fun d hd => by
    simpa using (List.mem_filter.mp hd).2
  have hmem : e ∈ edits.filter (·.start = e.start) := List.mem_filter.mpr ⟨he, by simp⟩
  obtain ⟨d, ds, hds⟩ := List.exists_cons_of_ne_nil (List.ne_nil_of_mem hmem)
  rw [hds] at hsplit hsame ⊢
  rw [List.cons_append] at hsplit
  have hd := hsame d List.mem_cons_self
  rw [hsplit] at h
  obtain ⟨hlow, hspan, hrest⟩ := h.from_edit
  obtain ⟨before, hbefore, hlength⟩ := assemble_append h
  have hpos : ((d.start.toNat : Nat) : Int) = d.start := Int.toNat_of_nonneg hlow
  have hfrom : Fits d.start.toNat text.length ((d :: ds) ++ back) := ⟨hpos.le, hspan, hrest⟩
  obtain ⟨behind, hbehind⟩ := assemble_same_start text (by rwa [hpos, hd]) hfrom
  refine ⟨before, behind, ?_, ?_⟩
  · rw [splice_eq_assemble (by rwa [hsplit]), hsplit, hbefore, ← hbehind, List.cons_append]
  · rw [hlength, hd, hfront.sum_eq, Nat.cast_zero, Int.sub_zero]

/-! ### The whole account -/

/-- Splicing edits that fit is putting the text together from left to right: every edit finds its
span in the text as it is when the edit is applied, what comes out is the text between the edits
with the replacements in their places, edits with different starts may be listed in any order, the
replacements of edits at one start stand as they are listed, and the lengths add up. -/
theorem splice_assembles (text : Text) (edits : List Edit)
    (h : Fits 0 text.length (orderEdits edits)) :
    (∀ front e behind, orderEdits edits = front ++ e :: behind →
        e.Within (behind.foldr Edit.apply text)) ∧
      splice text edits = assemble Edit.replacement text 0 (orderEdits edits) ∧
      (∀ edits' : List Edit,
        (∀ start, edits'.filter (·.start = start) = edits.filter (·.start = start)) →
          splice text edits' = splice text edits) ∧
      (∀ e ∈ edits, ∃ before behind, splice text edits =
          before ++ ((edits.filter (·.start = e.start)).flatMap Edit.replacement ++ behind) ∧
        (before.length : Int) =
          e.start + ((edits.filter (·.start < e.start)).map Edit.growth).sum) ∧
      ((splice text edits).length : Int) = text.length + (edits.map Edit.growth).sum := by
  refine ⟨fun front e behind horder => ?_, splice_eq_assemble h,
    fun edits' hsame => splice_congr hsame text, fun e he => splice_at_start h he,
    length_splice_of_order h⟩
  rw [horder] at h
  exact within_of_fits h

/-- An insertion and a replacement at one start, listed behind an edit that follows them, with a
deletion in front of them between them. -/
theorem splice_assembles_abcdef :
    let first : Edit := ⟨0, 1, []⟩
    let insertion : Edit := ⟨2, 2, ['x']⟩
    let replacement : Edit := ⟨2, 4, ['y', 'z']⟩
    let last : Edit := ⟨4, 6, ['E']⟩
    let edits := [last, insertion, first, replacement]
    let edits' := [insertion, first, replacement, last]
    let text := "abcdef".toList
    Fits 0 text.length (orderEdits edits) ∧
      (∀ start, edits'.filter (·.start = start) = edits.filter (·.start = start)) ∧
      insertion.Within ([replacement, last].foldr Edit.apply text) ∧
      splice text edits = assemble Edit.replacement text 0 (orderEdits edits) ∧
      splice text edits = "bxyzE".toList ∧
      splice text edits' = splice text edits ∧
      (∃ before behind, splice text edits = before ++ ("xyz".toList ++ behind) ∧
        (before.length : Int) = 1) ∧
      ((splice text edits).length : Int) = 6 + (-1 + (1 + (-1 + 0))) := by
  intro first insertion replacement last edits edits' text
  have hfits : Fits 0 text.length (orderEdits edits) := by decide
  have hsame : ∀ start, edits'.filter (·.start = start) = edits.filter (·.start = start) := by
    intro start
    simp only [edits, edits', first, insertion, replacement, last, List.filter_cons,
      List.filter_nil, decide_eq_true_eq]
    grind
  obtain ⟨hwithin, hassembled, horder, hstart, hlength⟩ := splice_assembles text edits hfits
  exact ⟨hfits, hsame, hwithin [first] insertion [replacement, last] rfl, hassembled, by decide,
    horder edits' hsame, hstart insertion (by decide), hlength⟩

end Galley
