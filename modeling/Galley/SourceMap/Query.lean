import Galley.Anchor
import Galley.Json.Basic
import Galley.Number.Numeral

/-!
Positions in what the typesetter reports. The report is JSON whose layout varies, so labels and
locations are looked for anywhere in it, every value before the values inside it.

* `Json.walk`: a value and the values inside it, in the order in which they are visited;
* `labelOf?`: the label that an object carries, directly or one object further down;
* `NumberFault`: a number that cannot be taken over;
* `positionOf?`, `findLocation?`: the position that an object gives, and the first one inside a
  value;
* `positionsOf`: the positions of all labels of anchors.
-/

namespace Galley

/-! ### Walking through values -/

namespace Json

/-- The values directly inside a value. -/
def members : Json → List Json
  | .array items => items
  | .object fields => fields.map Prod.snd
  | _ => []

mutual

/-- The number of values that a value is made of, itself included. -/
def size : Json → Nat
  | .array items => 1 + sizeItems items
  | .object fields => 1 + sizeFields fields
  | _ => 1

/-- The number of values that the items of an array are made of. -/
def sizeItems : List Json → Nat
  | [] => 0
  | item :: items => size item + sizeItems items

/-- The number of values that the fields of an object are made of. -/
def sizeFields : List (CodeText × Json) → Nat
  | [] => 0
  | (_, value) :: fields => size value + sizeFields fields

end

theorem sizeItems_append (values stack : List Json) :
    sizeItems (values ++ stack) = sizeItems values + sizeItems stack := by
  induction values with
  | nil => simp [sizeItems]
  | cons value values ih => simp only [List.cons_append, sizeItems, ih, Nat.add_assoc]

theorem size_eq (value : Json) : size value = 1 + sizeItems value.members := by
  have hfields : ∀ fields : List (CodeText × Json),
      sizeFields fields = sizeItems (fields.map Prod.snd) := by
    intro fields
    induction fields with
    | nil => rfl
    | cons field fields ih => rw [sizeFields, List.map_cons, sizeItems, ih]
  cases value with
  | object fields => rw [size, members, hfields]
  | _ => simp [size, members, sizeItems]

/-- Walks on with a stack of values: the value on top comes next, and the values directly inside it
take its place on the stack, the first one on top. -/
def walkFrom : List Json → List Json
  | [] => []
  | value :: stack => value :: walkFrom (value.members ++ stack)
termination_by stack => sizeItems stack
decreasing_by
  rw [sizeItems_append, sizeItems, size_eq value]
  omega

/-- A value and the values inside it, depth first. -/
def walk (value : Json) : List Json := walkFrom [value]

end Json

/-! ### Labels -/

/-- The label without spaces around it, and without the angle brackets that a label may be shown
in. -/
def plainLabel (raw : CodeText) : CodeText :=
  let label := CodeText.trim raw
  match label with
  | .scalar '<' :: body =>
      if body.getLast? == some (.scalar '>') then CodeText.trim body.dropLast else label
  | _ => label

/-- The string that an object has as its label. -/
def ownLabel? (value : Json) : Option CodeText :=
  match value.get? "label".toList with
  | some (.string s) => some (plainLabel s)
  | _ => none

/-- The fields that may hold the object with the label. -/
def labelHolders : List Text :=
  ["value".toList, "target".toList, "node".toList, "fields".toList]

/-- The label that an object carries: its own, or that of an object in one of its fields. -/
def labelOf? (value : Json) : Option CodeText :=
  ownLabel? value <|> labelHolders.findSome? fun key => (value.get? key).bind ownLabel?

/-! ### Numbers -/

/-- Why a number cannot be taken over: it is out of range, or it is not a number. -/
inductive NumberFault where
  | tooLarge
  | notANumber
deriving DecidableEq

/-- The number of an integer. -/
def exactNumber (n : Int) : Except NumberFault Binary64 :=
  match Binary64.ofInt? n with
  | some x => .ok x
  | none => .error .tooLarge

/-- The text without the unit of points at its end. -/
def dropUnit (t : Text) : Text :=
  if ['p', 't'].isSuffixOf t then Text.trim (t.take (t.length - 2)) else t

/-- The coordinate that a value gives: a number, or a numeral with a unit or none. -/
def coordinate? : Json → Except NumberFault (Option Binary64)
  | .integer n => (exactNumber n).map some
  | .real x => .ok (some x)
  | .string s =>
      .ok (do readNumber? (dropUnit (← CodeText.toText? (CodeText.trim s))))
  | _ => .ok none

/-- The integer part of a number. -/
def wholePart (x : Binary64) : Except NumberFault Int :=
  match x with
  | .nan => .error .notANumber
  | .infinity _ => .error .tooLarge
  | x => .ok (x.truncate?.getD 0)

/-- The page that a value gives. The first page stands for anything that is no page. -/
def pageOf (value : Json) : Except NumberFault Int := do
  match ← coordinate? value with
  | none => .ok 1
  | some x => if x.lt (.ofScaled false 1 0) then .ok 1 else wholePart x

/-- The coordinate that a value gives, or zero. A negative zero counts as zero. -/
def coordinateOf (value : Json) : Except NumberFault Binary64 := do
  match ← coordinate? value with
  | none => .ok .zero
  | some x => .ok (if x.isZero then .zero else x)

/-! ### Positions -/

/-- The fields that may hold the point of a position. -/
def pointHolders : List Text := ["position".toList, "point".toList, "pos".toList]

/-- The point of an object, as the values of its two coordinates: an object with coordinates, or the
corner of a box. -/
def pointOf? (value : Json) : Option (Json × Json) :=
  let point? := pointHolders.findSome? fun key =>
    match value.get? key with
    | some (.object fields) => some (Json.object fields)
    | _ => none
  match point? with
  | some point => some ((point.get? ['x']).getD .null, (point.get? ['y']).getD .null)
  | none =>
      match value.get? "rect".toList with
      | some (.array (x :: y :: _)) => some (x, y)
      | _ => none

/-- The position that an object gives. -/
def positionOf? (value : Json) : Except NumberFault (Option PagePosition) :=
  match value with
  | .object _ => do
      let page ← pageOf ((value.get? "page".toList).getD .null)
      match pointOf? value with
      | none => .ok none
      | some (x, y) => .ok (some ⟨page, ← coordinateOf x, ← coordinateOf y⟩)
  | _ => .ok none

/-- The location that an object gives: the position in its field for it, or its own. -/
def locationOf? (value : Json) : Except NumberFault (Option PagePosition) := do
  match value with
  | .object _ =>
      let inner? ← positionOf? ((value.get? "location".toList).getD .null)
      match inner? with
      | some position => .ok (some position)
      | none => positionOf? value
  | _ => .ok none

/-- The first result that one of the values gives. -/
def firstResult? {β : Type} (probe : Json → Except NumberFault (Option β)) :
    List Json → Except NumberFault (Option β)
  | [] => .ok none
  | value :: values => do
      match ← probe value with
      | some result => .ok (some result)
      | none => firstResult? probe values

/-- The first location inside a value. -/
def findLocation? (value : Json) : Except NumberFault (Option PagePosition) :=
  firstResult? locationOf? value.walk

/-! ### Labels with positions -/

/-- Names of anchors begin like this. -/
def anchorPrefix : CodeText := CodeText.ofText "tf-".toList

/-- The labels of anchors with their positions, in the order in which they were found. -/
abbrev Positions := List (CodeText × PagePosition)

/-- Adds the position that belongs to the label of a value, unless the label has one. -/
def addPosition (found : Positions) (value : Json) : Except NumberFault Positions :=
  match labelOf? value with
  | none => .ok found
  | some label =>
      if !anchorPrefix.isPrefixOf label || (found.lookup label).isSome then .ok found
      else do
        match ← findLocation? value with
        | some position => .ok (found ++ [(label, position)])
        | none => .ok found

/-- Adds the positions that belong to the labels of values. -/
def addPositions (found : Positions) : List Json → Except NumberFault Positions
  | [] => .ok found
  | value :: values => do addPositions (← addPosition found value) values

/-- The positions of all labels of anchors in a report. A label gets the first location inside the
first value that carries it and has one. -/
def positionsOf (tree : Json) : Except NumberFault Positions := addPositions [] tree.walk

end Galley
