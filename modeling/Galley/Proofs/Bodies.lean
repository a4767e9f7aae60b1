import Galley.Diagram.Document
import Galley.Proofs.Pieces
import Mathlib.Tactic

/-!
The body of the document that is compiled for a diagram. The template brings the bounds of the body
along, and drops the lines of a diagram that begin with one of them; a bound further on in a line
stays where it is.

* `places`: the number of places at which a piece stands;
* `places_append_cons`, `places_joinWith`: a separator, or a break between lines, is in no place of
  a piece without it;
* `places_document`: a document holds a piece as often as the preamble option and the kept lines of
  the diagram do, and once more for each bound that it is;
* `OneBody`, `document_oneBody`: so a document has one body exactly if neither the preamble option
  nor a kept line holds a bound;
* `document_two_bodies`: a document with a bound too many.
-/

namespace Galley

/-! ### Counting pieces -/

/-- The number of places at which a piece stands. -/
def places (piece : Text) : Text → Nat
  | [] => if piece.isEmpty then 1 else 0
  | c :: cs => (if piece.isPrefixOf (c :: cs) then 1 else 0) + places piece cs

/-- A piece stands nowhere exactly if it does not occur. -/
lemma places_eq_zero {piece t : Text} : places piece t = 0 ↔ occursIn piece t = false := by
  rw [occursIn_eq_false]
  induction t with
  | nil => rw [places, List.infix_nil]; cases piece <;> simp
  | cons c t ih =>
      rw [places, List.infix_cons_iff, not_or, ← ih, Nat.add_eq_zero_iff,
        ← List.isPrefixOf_iff_prefix]
      cases piece.isPrefixOf (c :: t) <;> simp

section Places

variable {piece : Text} {c : Char}

lemma places_nil (hpiece : piece ≠ []) : places piece [] = 0 := by
  rw [places, if_neg (by simpa using hpiece)]

/-- A separator that is not in a piece is in none of its places. -/
lemma places_append_cons (hpiece : piece ≠ []) (hc : c ∉ piece) (u v : Text) :
    places piece (u ++ c :: v) = places piece u + places piece v := by
  induction u with
  | nil =>
      have hhere : ¬piece <+: c :: v := fun h =>
        hpiece (List.prefix_nil.mp ((prefix_append_cons (u := []) hc).mp h))
      rw [List.nil_append, places_nil hpiece, places,
        if_neg fun h => hhere (List.isPrefixOf_iff_prefix.mp h)]
  | cons x u ih =>
      have hhere : piece.isPrefixOf (x :: (u ++ c :: v)) = piece.isPrefixOf (x :: u) := by
        rw [Bool.eq_iff_iff, List.isPrefixOf_iff_prefix, List.isPrefixOf_iff_prefix]
        exact prefix_append_cons (u := x :: u) hc
      rw [List.cons_append, places, places, ih, hhere, Nat.add_assoc]

/-- Between pieces that are joined by a separator, nothing is found. -/
lemma places_joinWith (hpiece : piece ≠ []) (hc : c ∉ piece) (pieces : List Text) :
    places piece (joinWith [c] pieces) = (pieces.map (places piece)).sum := by
  induction pieces with
  | nil => exact places_nil hpiece
  | cons first rest ih =>
      cases rest with
      | nil => simp [joinWith]
      | cons next rest =>
          rw [joinWith_cons_cons, List.singleton_append, places_append_cons hpiece hc, ih]
          rfl

end Places

/-! ### Parts of a document -/

namespace Latex

/-- The lines of a diagram that come into the document. -/
def keptLines (source : Text) : List Text :=
  (splitLines source).filter fun line => lineRole line != .dropped

/-- A text behind which a line ends is the same text, but for the line feed. -/
lemma endLine_eq (t : Text) : ∃ u, endLine t = u ++ ['\n'] ∧ (t = u ∨ t = u ++ ['\n']) := by
  rw [endLine]
  split_ifs with h
  · obtain ⟨u, rfl⟩ := List.getLast?_eq_some_iff.mp (beq_iff_eq.mp h)
    exact ⟨u, rfl, .inr rfl⟩
  · exact ⟨t, rfl, .inl rfl⟩

section Parts

variable {piece : Text} (hpiece : piece ≠ []) (hfeed : '\n' ∉ piece)
include hpiece hfeed

lemma places_endLine_append (t v : Text) :
    places piece (endLine t ++ v) = places piece t + places piece v := by
  obtain ⟨u, hline, rfl | rfl⟩ := endLine_eq t
  · rw [hline, List.append_assoc, List.singleton_append, places_append_cons hpiece hfeed]
  · rw [hline, List.append_assoc, List.singleton_append, places_append_cons hpiece hfeed,
      places_append_cons hpiece hfeed, places_nil hpiece, Nat.add_zero]

lemma places_endLine (t : Text) : places piece (endLine t) = places piece t := by
  have h := places_endLine_append hpiece hfeed t []
  rwa [List.append_nil, places_nil hpiece] at h

lemma places_preamblePart_append (t v : Text) :
    places piece (preamblePart t ++ v) = places piece t + places piece v := by
  rw [preamblePart]
  split_ifs with hempty
  · rw [List.isEmpty_iff.mp hempty, List.nil_append, places_nil hpiece, Nat.zero_add]
  · exact places_endLine_append hpiece hfeed t v

lemma places_preamblePart (t : Text) : places piece (preamblePart t) = places piece t := by
  have h := places_preamblePart_append hpiece hfeed t []
  rwa [List.append_nil, places_nil hpiece] at h

/-- A picture around a body holds what the body does. -/
lemma places_wrapPicture (hbegin : places piece beginPicture = 0)
    (hend : places piece endPicture = 0) (body : Text) :
    places piece (wrapPicture body) = places piece body := by
  rw [wrapPicture]
  split_ifs
  · rfl
  · rw [places_append_cons hpiece hfeed, places_append_cons hpiece hfeed,
      places_append_cons hpiece hfeed, hbegin, hend, places_nil hpiece]
    omega

end Parts

/-- The lines of both roles together are the kept ones. -/
lemma places_linesFor (piece source : Text) :
    ((linesFor .preamble source).map (places piece)).sum +
        ((linesFor .body source).map (places piece)).sum =
      ((keptLines source).map (places piece)).sum := by
  rw [linesFor, linesFor, keptLines]
  induction splitLines source with
  | nil => rfl
  | cons line lines ih => cases hrole : lineRole line <;> simp [hrole] <;> omega

end Latex

open Latex

/-- The texts of a diagram that come into its document: the preamble option and the kept lines. -/
def Diagram.parts (d : Diagram) : List Text := d.options.preamble.toList ++ keptLines d.source

/-- A document is a row of texts of which each one ends a line, or is empty. -/
lemma Diagram.document_eq (d : Diagram) :
    d.document = endLine basePreamble ++ (preamblePart (d.options.preamble.getD []) ++
      (preamblePart (splitSource d.source).1 ++ (endLine beginDocument ++
        (endLine (splitSource d.source).2 ++ endLine endDocument)))) := by
  have hends : endLine basePreamble = basePreamble ∧
      endLine beginDocument = beginDocument ++ ['\n'] ∧
      endLine endDocument = endDocument ++ ['\n'] := ⟨rfl, rfl, rfl⟩
  rw [Diagram.document, hends.1, hends.2.1, hends.2.2]
  simp only [List.append_assoc, List.cons_append, List.nil_append]

/-- A piece that is in no fixed line but the bounds of the body stands in a document as often as in
the parts of the diagram, and in the bounds. -/
theorem places_document {piece : Text} (hpiece : piece ≠ []) (hfeed : '\n' ∉ piece)
    (hbase : places piece basePreamble = 0) (hbegin : places piece beginPicture = 0)
    (hend : places piece endPicture = 0) (d : Diagram) :
    places piece d.document = (d.parts.map (places piece)).sum +
      (places piece beginDocument + places piece endDocument) := by
  have hoption : places piece (d.options.preamble.getD []) =
      (d.options.preamble.toList.map (places piece)).sum := by
    cases d.options.preamble with
    | none => exact places_nil hpiece
    | some preamble => simp
  have hpreamble : places piece (splitSource d.source).1 =
      ((linesFor .preamble d.source).map (places piece)).sum := by
    have hpart : (splitSource d.source).1 =
        preamblePart (joinWith ['\n'] (linesFor .preamble d.source)) := rfl
    rw [hpart, places_preamblePart hpiece hfeed, places_joinWith hpiece hfeed]
  have hbody : places piece (splitSource d.source).2 =
      ((linesFor .body d.source).map (places piece)).sum := by
    rw [splitSource, places_wrapPicture hpiece hfeed hbegin hend, places_joinWith hpiece hfeed]
  rw [d.document_eq, places_endLine_append hpiece hfeed, places_preamblePart_append hpiece hfeed,
    places_preamblePart_append hpiece hfeed, places_endLine_append hpiece hfeed,
    places_endLine_append hpiece hfeed, places_endLine hpiece hfeed, hbase, hoption, hpreamble,
    hbody, Diagram.parts, List.map_append, List.sum_append, ← places_linesFor]
  omega

/-! ### One body -/

/-- The document has one body: both bounds stand at one place each, the beginning in front of the
end. -/
structure OneBody (t : Text) : Prop where
  begins : places beginDocument t = 1
  ends : places endDocument t = 1
  ordered : ∃ front body behind, t = front ++ beginDocument ++ body ++ endDocument ++ behind

/-- The text holds no bound of a body. -/
def BoundFree (t : Text) : Prop :=
  occursIn beginDocument t = false ∧ occursIn endDocument t = false

/-- A document has one body exactly if no bound is in the preamble option, nor in a line of the
diagram that is kept. -/
theorem document_oneBody (d : Diagram) :
    OneBody d.document ↔ (∀ t ∈ d.options.preamble, BoundFree t) ∧
      ∀ line ∈ splitLines d.source, lineRole line ≠ .dropped → BoundFree line := by
  have hparts : (∀ t ∈ d.parts, BoundFree t) ↔ (∀ t ∈ d.options.preamble, BoundFree t) ∧
      ∀ line ∈ splitLines d.source, lineRole line ≠ .dropped → BoundFree line := by
    simp [Diagram.parts, keptLines, or_imp, forall_and]
  have hbegins : places beginDocument d.document = (d.parts.map (places beginDocument)).sum + 1 :=
    places_document (by decide) (by decide) (by decide) (by decide) (by decide) d
  have hends : places endDocument d.document = (d.parts.map (places endDocument)).sum + 1 :=
    places_document (by decide) (by decide) (by decide) (by decide) (by decide) d
  rw [← hparts]
  constructor
  · rintro ⟨hbegin, hend, -⟩ t ht
    rw [hbegins, Nat.add_eq_right, List.sum_eq_zero_iff] at hbegin
    rw [hends, Nat.add_eq_right, List.sum_eq_zero_iff] at hend
    exact ⟨places_eq_zero.mp (hbegin _ (List.mem_map_of_mem ht)),
      places_eq_zero.mp (hend _ (List.mem_map_of_mem ht))⟩
  · intro hfree
    have hbegin : (d.parts.map (places beginDocument)).sum = 0 :=
      List.sum_eq_zero_iff.mpr <| List.forall_mem_map.mpr fun t ht =>
        places_eq_zero.mpr (hfree t ht).1
    have hend : (d.parts.map (places endDocument)).sum = 0 :=
      List.sum_eq_zero_iff.mpr <| List.forall_mem_map.mpr fun t ht =>
        places_eq_zero.mpr (hfree t ht).2
    refine ⟨by rw [hbegins, hbegin], by rw [hends, hend], ?_⟩
    exact ⟨basePreamble ++ preamblePart (d.options.preamble.getD []) ++
      preamblePart (splitSource d.source).1, '\n' :: endLine (splitSource d.source).2, ['\n'],
      by simp [Diagram.document]⟩

/-- A bound behind the command that loads a package comes into the preamble with it, and the
template brings its own. -/
theorem document_two_bodies :
    let d : Diagram := ⟨"tikz-0".toList,
      "\\usepackage\x7bxcolor\x7d \\begin\x7bdocument\x7d\n\\draw (0,0) -- (1,1);\n".toList, {}⟩
    d.options.preamble = none ∧ places beginDocument d.document = 2 ∧ ¬OneBody d.document := by
  intro d
  have htwice : places beginDocument d.document = 2 := by decide +kernel
  refine ⟨rfl, htwice, fun h => ?_⟩
  rw [h.begins] at htwice
  cases htwice

end Galley
