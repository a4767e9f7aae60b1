import Galley.Proofs.Splice
import Mathlib.Tactic

/-!
A text as pieces that are kept, with other pieces between them.

* `weave`: kept pieces with a piece put in behind each but the last; `weave_zipWith_append` moves
  the border between what is put in and what is kept;
* `Stretch`, `gaps`: the parts of a text that edits replace, and what lies between them;
* `weave_stretches`, `splice_eq_weave`: so a text and its spliced form are woven of the same kept
  pieces, the one with the stretches between them, the other with the replacements;
* `length_splice`: no edit that fits is refused, so the lengths add up.
-/

namespace Galley

/-! ### Weaving -/

/-- Kept pieces with the other pieces between them, one behind each kept piece but the last. -/
def weave : List Text → List Text → Text
  | keep :: keeps, fill :: fills => keep ++ (fill ++ weave keeps fills)
  | keeps, _ => keeps.flatten

/-- What is kept in front of a woven text may be joined to its first piece. -/
lemma weave_append (front keep : Text) (keeps fills : List Text) :
    weave ((front ++ keep) :: keeps) fills = front ++ weave (keep :: keeps) fills := by
  cases fills with
  | nil => exact List.append_assoc front keep keeps.flatten
  | cons fill fills => rw [weave, weave, List.append_assoc]

/-- The ends of pieces that are put in may be kept instead, in front of what follows them. -/
lemma weave_zipWith_append (keep : Text) {keeps fills ends : List Text}
    (hkeeps : keeps.length = fills.length) (hends : ends.length = fills.length) :
    weave (keep :: keeps) (List.zipWith (· ++ ·) fills ends) =
      weave (keep :: List.zipWith (· ++ ·) ends keeps) fills := by
  induction fills generalizing keep keeps ends with
  | nil =>
      obtain rfl := List.length_eq_zero_iff.mp hkeeps
      obtain rfl := List.length_eq_zero_iff.mp hends
      rfl
  | cons fill fills ih =>
      obtain ⟨next, keeps, rfl⟩ := List.exists_cons_of_length_eq_add_one hkeeps
      obtain ⟨last, ends, rfl⟩ := List.exists_cons_of_length_eq_add_one hends
      have hrest := ih next (Nat.succ.inj hkeeps) (Nat.succ.inj hends)
      rw [List.zipWith_cons_cons, List.zipWith_cons_cons, weave, weave, hrest, weave_append,
        List.append_assoc]

/-! ### Stretches -/

/-- A stretch of a text: the characters from `start` to before `stop`. -/
structure Stretch where
  start : Nat
  stop : Nat
deriving DecidableEq

/-- The characters of a stretch. -/
def Stretch.of (text : Text) (s : Stretch) : Text := (text.drop s.start).take (s.stop - s.start)

/-- What lies between stretches of a text from the offset `pos` on. -/
def gaps (text : Text) (pos : Nat) : List Stretch → List Text
  | [] => [text.drop pos]
  | s :: ss => (text.drop pos).take (s.start - pos) :: gaps text s.stop ss

lemma length_gaps (text : Text) (pos : Nat) (ss : List Stretch) :
    (gaps text pos ss).length = ss.length + 1 := by
  induction ss generalizing pos with
  | nil => rfl
  | cons s ss ih => rw [gaps, List.length_cons, ih, List.length_cons]

/-- The stretch that an edit replaces. -/
def Edit.stretch (e : Edit) : Stretch := ⟨e.start.toNat, e.stop.toNat⟩

/-! ### Edits that fit -/

lemma assemble_eq_weave (text : Text) (pos : Nat) (es : List Edit) :
    assemble Edit.replacement text pos es =
      weave (gaps text pos (es.map Edit.stretch)) (es.map Edit.replacement) := by
  induction es generalizing pos with
  | nil => simp [assemble, gaps, weave]
  | cons e es ih =>
      rw [assemble, ih, List.append_assoc]
      rfl

/-- A text is what lies between the stretches with the stretches themselves. -/
lemma weave_stretches {text : Text} {pos : Nat} {es : List Edit} (h : Fits pos text.length es) :
    weave (gaps text pos (es.map Edit.stretch)) (es.map fun e => e.stretch.of text) =
      text.drop pos := by
  induction es generalizing pos with
  | nil => simp [gaps, weave]
  | cons e es ih =>
      obtain ⟨hstart, hstop, hrest⟩ := h
      have hrest' := @ih e.stop.toNat (by
        rwa [Int.toNat_of_nonneg (by omega)])
      have hbehind : text.drop e.stop.toNat =
          (text.drop e.start.toNat).drop (e.stop.toNat - e.start.toNat) := by
        rw [List.drop_drop]
        congr 1
        omega
      have hfrom : text.drop e.start.toNat = (text.drop pos).drop (e.start.toNat - pos) := by
        rw [List.drop_drop]
        congr 1
        omega
      rw [List.map_cons, List.map_cons, gaps, weave]
      dsimp only [Edit.stretch] at hrest' ⊢
      rw [hrest', Stretch.of, hbehind, List.take_append_drop, hfrom, List.take_append_drop]

/-- The spliced text is what lies between the stretches with the replacements. -/
lemma splice_eq_weave {text : Text} {edits : List Edit} (h : Fits 0 text.length edits) :
    splice text edits =
      weave (gaps text 0 (edits.map Edit.stretch)) (edits.map Edit.replacement) := by
  rw [splice_eq_assemble (by rwa [h.orderEdits_eq]), h.orderEdits_eq, assemble_eq_weave]

lemma length_assemble {text : Text} {pos : Nat} {es : List Edit} (h : Fits pos text.length es) :
    ((assemble Edit.replacement text pos es).length : Int) =
      text.length - pos + (es.map Edit.growth).sum := by
  induction es generalizing pos with
  | nil =>
      have hle : (pos : Int) ≤ text.length := h
      rw [assemble, List.length_drop, List.map_nil, List.sum_nil]
      omega
  | cons e es ih =>
      obtain ⟨hstart, hstop, hrest⟩ := h
      have hend := hrest.le
      have hrest' := @ih e.stop.toNat (by
        rwa [Int.toNat_of_nonneg (by omega)])
      rw [assemble, List.length_append, List.length_append, List.length_take, List.length_drop,
        List.map_cons, List.sum_cons, Edit.growth]
      push_cast
      omega

/-- Every edit adds its growth to the length: none is refused. -/
lemma length_splice {text : Text} {edits : List Edit} (h : Fits 0 text.length edits) :
    ((splice text edits).length : Int) = text.length + (edits.map Edit.growth).sum := by
  rw [splice_eq_assemble (by rwa [h.orderEdits_eq]), h.orderEdits_eq, length_assemble h,
    Nat.cast_zero, Int.sub_zero]

/-- Stretches of edits that fit lie in the text, one behind the other. -/
lemma Fits.stretches {low : Nat} {high : Int} {es : List Edit} (h : Fits low high es) :
    (es.map Edit.stretch).Pairwise (fun r s => r.stop ≤ s.start) ∧
      ∀ s ∈ es.map Edit.stretch, low ≤ s.start ∧ s.start ≤ s.stop ∧ s.stop ≤ high := by
  induction es generalizing low with
  | nil => simp
  | cons e es ih =>
      obtain ⟨hstart, hstop, hrest⟩ := h
      have hend := hrest.le
      obtain ⟨hpairwise, hinside⟩ := @ih e.stop.toNat (by
        rwa [Int.toNat_of_nonneg (by omega)])
      rw [List.map_cons]
      refine ⟨List.pairwise_cons.mpr ⟨fun s hs => (hinside s hs).1, hpairwise⟩, fun s hs => ?_⟩
      rcases List.mem_cons.mp hs with rfl | hs
      · dsimp only [Edit.stretch]
        omega
      · obtain ⟨hlow, hle, hhigh⟩ := hinside s hs
        omega

end Galley
