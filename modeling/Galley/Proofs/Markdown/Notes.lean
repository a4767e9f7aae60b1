import Galley.Markdown.Document
import Galley.Proofs.Markdown.Spans
import Mathlib.Data.List.Perm.Subperm
import Mathlib.Tactic

/-!
Which blocks of the events are blocks of the document.

* `sortEvents_of_notMem`: what was kept for a footnote does not matter unless it ends again;
* `blocksOf_subperm`: no block comes out twice, though a footnote may be ended, defined or referred
  to more than once.
-/

namespace Galley.Markdown

/-! ### Labels -/

lemma distinct_spec (seen labels : List Text) :
    (distinct seen labels).Nodup ∧ ∀ l ∈ distinct seen labels, l ∉ seen := by
  induction labels generalizing seen with
  | nil => simp [distinct]
  | cons l labels ih =>
      rw [distinct]
      split_ifs with hl
      · exact ih seen
      · obtain ⟨hnodup, hseen⟩ := ih (l :: seen)
        refine ⟨List.nodup_cons.mpr ⟨fun hmem => ?_, hnodup⟩, fun k hk => ?_⟩
        · exact hseen l hmem List.mem_cons_self
        · rcases List.mem_cons.mp hk with rfl | hk
          · simpa using hl
          · exact fun hmem => hseen k hk (List.mem_cons_of_mem _ hmem)

/-- No footnote is referred to twice. -/
lemma referredNotes_nodup (events : List Event) : (referredNotes events).Nodup := by
  rw [referredNotes]
  split_ifs
  · exact List.nodup_nil
  · exact (distinct_spec _ _).1

/-! ### Footnotes that end -/

/-- The labels of the footnotes that end. -/
def Sorting.labels (s : Sorting) : List Text := s.notes.map Prod.fst

/-- What was kept for a footnote does not matter unless it ends again. -/
lemma sortEvents_of_notMem {events : List Event} {label : Text} {current : List Block}
    (h : label ∉ (sortEvents false current label events).labels) :
    sortEvents false current label events = sortEvents false [] label events := by
  induction events with
  | nil => rfl
  | cons e es ih =>
      cases e with
      | openNote l => rfl
      | closeNote => simp [sortEvents, Sorting.labels] at h
      | link l => exact ih h
      | shortLine => exact ih h
      | block b =>
          have hrest := ih (by simpa [sortEvents, Sorting.labels] using h)
          simp only [sortEvents, Bool.false_eq_true, if_false]
          rw [hrest]

lemma lookup_notes_eq_none {s : Sorting} {label : Text} (h : label ∉ s.labels) :
    s.notes.reverse.lookup label = none := by
  refine List.lookup_eq_none_iff.mpr fun p hp => ?_
  have hne : p.1 ≠ label := fun heq => h (heq ▸ List.mem_map_of_mem (List.mem_reverse.mp hp))
  simpa using hne.symm

lemma noteBlocks_of_notMem {s : Sorting} {label : Text} (h : label ∉ s.labels) :
    s.noteBlocks label = [] := by
  rw [Sorting.noteBlocks, lookup_notes_eq_none h, Option.getD_none]

/-- What ends with a footnote is that footnote's, unless it ends again later. -/
lemma noteBlocks_cons (s : Sorting) (label : Text) (current : List Block) (k : Text) :
    Sorting.noteBlocks { s with notes := (label, current) :: s.notes } k =
      if k = label ∧ label ∉ s.labels then current else s.noteBlocks k := by
  rw [Sorting.noteBlocks, Sorting.noteBlocks, List.reverse_cons, List.lookup_append]
  split_ifs with h
  · obtain ⟨rfl, hk⟩ := h
    simp [lookup_notes_eq_none hk]
  · cases hk : s.notes.reverse.lookup k with
    | some bs => rfl
    | none =>
        have hne : k ≠ label := by
          rintro rfl
          refine h ⟨rfl, fun hmem => ?_⟩
          obtain ⟨p, hp, hpk⟩ := List.mem_map.mp hmem
          have := List.lookup_eq_none_iff.mp hk p (List.mem_reverse.mpr hp)
          simp [hpk] at this
        have hbeq : (k == label) = false := by simpa using hne
        simp [List.lookup_cons, hbeq]

/-- A label that had no blocks and gets some adds these. -/
lemma flatMap_update_perm {f : Text → List Block} {label : Text} {labels : List Text}
    (current : List Block) (hlabels : labels.Nodup) (hmem : label ∈ labels) (hf : f label = []) :
    (labels.flatMap fun k => if k = label then current else f k).Perm
      (current ++ labels.flatMap f) := by
  induction labels with
  | nil => simp at hmem
  | cons l ls ih =>
      obtain ⟨hl, hls⟩ := List.nodup_cons.mp hlabels
      rw [List.flatMap_cons, List.flatMap_cons]
      by_cases heq : l = label
      · subst heq
        have hsame : ∀ k ∈ ls, (if k = l then current else f k) = f k := by
          intro k hk
          rw [if_neg]
          rintro rfl
          exact hl hk
        rw [if_pos rfl, hf, List.flatMap_congr hsame, List.nil_append]
      · have hperm := ih hls ((List.mem_cons.mp hmem).resolve_left (Ne.symm heq))
        rw [if_neg heq]
        refine (hperm.append_left (f l)).trans ?_
        rw [← List.append_assoc, ← List.append_assoc]
        exact List.perm_append_comm.append_right _

/-- With the blocks kept for a footnote, every block comes out at most once. -/
lemma sortEvents_subperm (inside : Bool) (current : List Block) (label : Text)
    (events : List Event) {labels : List Text} (hlabels : labels.Nodup) :
    ((sortEvents inside current label events).outside ++
      labels.flatMap (sortEvents inside current label events).noteBlocks).Subperm
      (current ++ blocks events) := by
  induction events generalizing inside current label with
  | nil =>
      have hnil : labels.flatMap (Sorting.noteBlocks ⟨[], []⟩) = [] :=
        List.flatMap_eq_nil_iff.mpr fun _ _ => rfl
      rw [sortEvents, hnil]
      exact List.nil_subperm
  | cons e es ih =>
      cases e with
      | openNote l =>
          exact (ih true [] l).trans (List.sublist_append_right current (blocks es)).subperm
      | closeNote =>
          set s := sortEvents false current label es with hs
          have hkeep := ih false current label
          rw [← hs] at hkeep
          have hsorted : sortEvents inside current label (.closeNote :: es) =
              { s with notes := (label, current) :: s.notes } := rfl
          rw [hsorted, funext (noteBlocks_cons s label current)]
          by_cases hagain : label ∈ labels ∧ label ∉ s.labels
          · obtain ⟨hmem, hnot⟩ := hagain
            -- what was kept comes out here, and nothing else does on its account
            have hrest := ih false [] label
            rw [← sortEvents_of_notMem (hs ▸ hnot), ← hs, List.nil_append] at hrest
            have hperm := flatMap_update_perm current hlabels hmem (noteBlocks_of_notMem hnot)
            have hif : (fun k => if k = label ∧ label ∉ s.labels then current
                else s.noteBlocks k) = fun k => if k = label then current else s.noteBlocks k := by
              funext k
              simp [hnot]
            rw [hif]
            refine (hperm.append_left s.outside).subperm.trans ?_
            rw [← List.append_assoc]
            refine (List.perm_append_comm.append_right _).subperm.trans ?_
            rw [List.append_assoc]
            exact (List.subperm_append_left current).mpr hrest
          · have hsame : ∀ k ∈ labels, (if k = label ∧ label ∉ s.labels then current
                else s.noteBlocks k) = s.noteBlocks k := by
              intro k hk
              rw [if_neg]
              rintro ⟨rfl, hnot⟩
              exact hagain ⟨hk, hnot⟩
            rw [List.flatMap_congr hsame]
            exact hkeep
      | link l => exact ih inside current label
      | shortLine => exact ih inside current label
      | block b =>
          cases inside with
          | true =>
              have := ih true (current ++ [b]) label
              rwa [List.append_assoc] at this
          | false =>
              have hrest := (List.subperm_cons b).mpr (ih false current label)
              exact hrest.trans List.perm_middle.symm.subperm

/-- No block comes out twice. -/
theorem blocksOf_subperm (events : List Event) : (blocksOf events).Subperm (blocks events) :=
  sortEvents_subperm false [] [] events (referredNotes_nodup events)

end Galley.Markdown
