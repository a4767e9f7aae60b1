import Galley.Proofs.Merging
import Galley.Proofs.Rounding
import Galley.SourceMap.Load
import Mathlib.Tactic

/-!
Reports that cannot be merged. Most values that are no numbers are passed over, but some numbers
have no place among pages and coordinates, and these let a merge fail.

* `OutOfRange`, `BadPage`: the values that cannot be converted to a coordinate, or to a page;
* `BadPosition`, `BadLocation`: the objects whose position or location cannot be read;
* `merge_fails`: a merge fails if and only if it comes to such an object;
* `merge_fails_loaded`: a report with a page that is not a number.
-/

namespace Galley

/-! ### Numbers -/

/-- An integer beyond the range of floating point numbers. -/
def OutOfRange (value : Json) : Prop := ∃ n, value = .integer n ∧ rangeBound ≤ n.natAbs

/-- A value that cannot be converted to a page: an integer beyond the range, and a number or a
numeral for not-a-number or for infinity. -/
def BadPage (value : Json) : Prop :=
  OutOfRange value ∨ coordinate? value = .ok (some .nan) ∨
    coordinate? value = .ok (some (.infinity false))

lemma exactNumber_fails {n : Int} : Fails (exactNumber n) ↔ rangeBound ≤ n.natAbs := by
  rw [← Binary64.ofInt?_eq_none, exactNumber]
  cases Binary64.ofInt? n <;> simp

lemma coordinate?_fails {value : Json} : Fails (coordinate? value) ↔ OutOfRange value := by
  cases value with
  | integer n => simp [coordinate?, OutOfRange, exactNumber_fails]
  | _ => simp [coordinate?, OutOfRange]

lemma coordinateOf_fails {value : Json} : Fails (coordinateOf value) ↔ OutOfRange value := by
  rw [coordinateOf, fails_bind, coordinate?_fails]
  refine or_iff_left ?_
  rintro ⟨x?, -, h⟩
  cases x? <;> exact not_fails_ok _ h

/-- A number is turned into a page by its integer part, which not-a-number and infinity lack; below
one it is not looked at. -/
lemma wholePage_fails {x : Binary64} :
    Fails (if x.lt (.ofScaled false 1 0) then .ok 1 else wholePart x) ↔
      x = .nan ∨ x = .infinity false := by
  cases x with
  | nan => simp [wholePart, Binary64.lt, Binary64.order?]
  | infinity negative =>
      cases negative with
      | false =>
          have hlt : (Binary64.infinity false).lt (.ofScaled false 1 0) = false := by
            decide +kernel
          simp [hlt, wholePart]
      | true =>
          have hlt : (Binary64.infinity true).lt (.ofScaled false 1 0) = true := by
            decide +kernel
          simp [hlt]
  | finite negative place =>
      have hwhole : ¬ Fails (wholePart (.finite negative place)) := not_fails_ok _
      split_ifs <;> simp [hwhole]

lemma pageOf_fails {value : Json} : Fails (pageOf value) ↔ BadPage value := by
  rw [pageOf, fails_bind, coordinate?_fails, BadPage]
  refine or_congr_right ?_
  constructor
  · rintro ⟨x?, hx, hfails⟩
    cases x? with
    | none => exact absurd hfails (not_fails_ok _)
    | some x =>
        rw [hx]
        exact (wholePage_fails.mp hfails).imp (congrArg (Except.ok <| some ·))
          (congrArg (Except.ok <| some ·))
  · rintro (hx | hx)
    · exact ⟨_, hx, wholePage_fails.mpr (Or.inl rfl)⟩
    · exact ⟨_, hx, wholePage_fails.mpr (Or.inr rfl)⟩

/-! ### Objects -/

/-- An object whose position cannot be read: its page cannot be converted, or a coordinate of its
point. A missing page is the first one. -/
def BadPosition (value : Json) : Prop :=
  ∃ fields, value = .object fields ∧
    (BadPage ((value.get? "page".toList).getD .null) ∨
      ∃ x y, pointOf? value = some (x, y) ∧ (OutOfRange x ∨ OutOfRange y))

/-- An object whose location cannot be read: the position in its field for it cannot be, or there is
none and its own cannot be. -/
def BadLocation (value : Json) : Prop :=
  ∃ fields, value = .object fields ∧
    (BadPosition ((value.get? "location".toList).getD .null) ∨
      positionOf? ((value.get? "location".toList).getD .null) = .ok none ∧ BadPosition value)

lemma positionOf?_fails {value : Json} : Fails (positionOf? value) ↔ BadPosition value := by
  cases value with
  | object fields =>
      rw [positionOf?, fails_bind_of_iff (P := ∃ x y, pointOf? (.object fields) = some (x, y) ∧
        (OutOfRange x ∨ OutOfRange y)), pageOf_fails, BadPosition]
      · simp
      · intro page
        cases pointOf? (.object fields) with
        | none => simp
        | some point =>
            have hcoordinates := fails_bind_of_iff (x := coordinateOf point.1)
              fun x => fails_bind_of_iff (x := coordinateOf point.2)
                fun y => iff_false_intro (not_fails_ok (some (PagePosition.mk page x y)))
            rw [or_false, coordinateOf_fails, coordinateOf_fails] at hcoordinates
            rw [hcoordinates]
            simp [Prod.ext_iff]
  | _ => simp [positionOf?, BadPosition]

lemma locationOf?_fails {value : Json} : Fails (locationOf? value) ↔ BadLocation value := by
  cases value with
  | object fields =>
      rw [locationOf?, fails_bind, positionOf?_fails, BadLocation]
      simp only [Json.object.injEq, exists_eq_left']
      refine or_congr_right ⟨?_, ?_⟩
      · rintro ⟨inner?, hinner, hfails⟩
        cases inner? with
        | none => exact ⟨hinner, positionOf?_fails.mp hfails⟩
        | some position => exact absurd hfails (not_fails_ok _)
      · rintro ⟨hinner, hown⟩
        exact ⟨none, hinner, positionOf?_fails.mpr hown⟩
  | _ => simp [locationOf?, BadLocation]

/-! ### Merging -/

/-- A merge fails if and only if the report holds a value that carries the name of an anchor, behind
values with this name that have no location, and in it an object whose location cannot be read,
behind values without locations. What the anchors are does not matter. -/
theorem merge_fails (anchors : List Anchor) (tree : Json) :
    (∃ fault, merge anchors tree = .error fault) ↔
      ∃ front node behind id, tree.preorder = front ++ node :: behind ∧
        labelOf? node = some id ∧ anchorPrefix <+: id ∧
        (∀ other ∈ front, labelOf? other = some id → Unlocated other) ∧
        ∃ front' inner behind', node.preorder = front' ++ inner :: behind' ∧
          BadLocation inner ∧ ∀ other ∈ front', locationOf? other = .ok none := by
  have hmerge : Fails (merge anchors tree) ↔ Fails (positionsOf tree) := by
    rw [merge, fails_bind_of_iff fun found => iff_false_intro (not_fails_ok _), or_false]
  calc (∃ fault, merge anchors tree = .error fault)
      ↔ Fails (positionsOf tree) := hmerge
    _ ↔ _ := by
        rw [positionsOf_fails]
        simp only [findLocation?_fails, locationOf?_fails]

/-- A report that is read, with the page of an anchor that is not a number. No anchor needs to be
there for the merge to fail. -/
theorem merge_fails_loaded :
    ∃ tree,
      loadReportText "\x7b\"label\": \"tf-0-1\", \"page\": NaN, \"pos\": \x7b\x7d\x7d".toList = .ok tree ∧
      merge [] tree = .error .notANumber := by
  refine ⟨Json.ofFields [("label", .string (CodeText.ofText "tf-0-1".toList)),
    ("page", .real .nan), ("pos", .object [])], ?_, ?_⟩
  · cbv
  · have hfault : positionsOf (Json.ofFields [("label", .string (CodeText.ofText "tf-0-1".toList)),
        ("page", .real .nan), ("pos", .object [])]) = .error .notANumber := by
      decide +kernel
    rw [merge, hfault]
    rfl

end Galley
