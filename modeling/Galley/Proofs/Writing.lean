import Galley.Json.Writer
import Mathlib.Tactic

/-!
The shape of written values: marks with white space around them, and values between the marks.

* `IsGapText`: a text of white space;
* `isGapText_breakLine`, `separator_eq`: a break is white space, and a separator is a comma with
  white space behind it;
* `writeItems_cons`, `writeFields_cons`: an item or a field stands behind a separator;
* `writeAt_array`, `writeAt_object`: members stand between breaks and brackets.
-/

namespace Galley

namespace Json

/-! ### White space -/

/-- The characters that may stand between tokens. -/
def gapAlphabet : Text := [' ', '\t', '\n', '\r']

/-- A text of white space. -/
def IsGapText (gap : Text) : Prop := gap ⊆ gapAlphabet

lemma isGapText_nil : IsGapText [] := List.nil_subset _

lemma isGapText_breakLine (indent : Option Nat) (depth : Nat) :
    IsGapText (breakLine indent depth) := by
  cases indent with
  | none => exact isGapText_nil
  | some width =>
      refine List.cons_subset.mpr ⟨by decide, fun c hc => ?_⟩
      rw [List.eq_of_mem_replicate hc]
      decide

/-- The white space behind the comma of a separator. -/
def separatorGap (indent : Option Nat) (depth : Nat) : Text :=
  match indent with
  | none => [' ']
  | some _ => breakLine indent depth

lemma separator_eq (indent : Option Nat) (depth : Nat) :
    separator indent depth = ',' :: separatorGap indent depth := by
  cases indent <;> rfl

lemma isGapText_separatorGap (indent : Option Nat) (depth : Nat) :
    IsGapText (separatorGap indent depth) := by
  cases indent with
  | none => exact List.cons_subset.mpr ⟨by decide, List.nil_subset _⟩
  | some width => exact isGapText_breakLine (some width) depth

/-! ### Members -/

section Members

variable (indent : Option Nat) (depth : Nat)

/-- A field as it is written. -/
def writeMember (field : CodeText × Json) : Text :=
  quote field.1 ++ ':' :: ' ' :: writeAt indent depth field.2

lemma writeItems_cons (item : Json) (items : List Json) :
    writeItems indent depth (item :: items) =
      ',' :: (separatorGap indent depth ++ (writeAt indent depth item ++
        writeItems indent depth items)) := by
  rw [writeItems, separator_eq, List.append_assoc, List.cons_append]

lemma writeFields_cons (field : CodeText × Json) (fields : List (CodeText × Json)) :
    writeFields indent depth (field :: fields) =
      ',' :: (separatorGap indent depth ++ (writeMember indent depth field ++
        writeFields indent depth fields)) := by
  obtain ⟨key, value⟩ := field
  rw [writeFields, separator_eq, writeMember]
  simp

lemma writeAt_array (item : Json) (items : List Json) :
    writeAt indent depth (.array (item :: items)) =
      '[' :: (breakLine indent (depth + 1) ++ (writeAt indent (depth + 1) item ++
        (writeItems indent (depth + 1) items ++ (breakLine indent depth ++ [']'])))) := by
  rw [writeAt]
  simp

lemma writeAt_object (field : CodeText × Json) (fields : List (CodeText × Json)) :
    writeAt indent depth (.object (field :: fields)) =
      '\x7b' :: (breakLine indent (depth + 1) ++ (writeMember indent (depth + 1) field ++
        (writeFields indent (depth + 1) fields ++ (breakLine indent depth ++ ['\x7d'])))) := by
  obtain ⟨key, value⟩ := field
  rw [writeAt, writeMember]
  simp

end Members

end Json

end Galley
