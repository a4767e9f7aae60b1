import Galley.Ordering
import Galley.Text.Basic

/-!
Edits of a text, and the way back from the edited text to the one before.

* `Edit`: a span of a text with what replaces it;
* `splice`: applies edits from the last to the first, so that no pending offset moves;
* `sourceOffset`: the offset in the text before the edits of an offset in the text after them.
-/

namespace Galley

/-- The replacement of the characters from `start` to before `stop`. -/
structure Edit where
  start : Int
  stop : Int
  replacement : Text
deriving DecidableEq

/-- The change of length that an edit makes. -/
def Edit.growth (e : Edit) : Int := e.replacement.length - (e.stop - e.start)

/-- Applies one edit. An edit whose span is not one of the text changes nothing. -/
def Edit.apply (e : Edit) (text : Text) : Text :=
  if 0 ≤ e.start ∧ e.start ≤ e.stop ∧ e.stop ≤ text.length then
    text.take e.start.toNat ++ e.replacement ++ text.drop e.stop.toNat
  else text

/-- The edits by their starts, those of one start as they were listed. -/
def orderEdits (edits : List Edit) : List Edit := orderBy (fun a b => a.start ≤ b.start) edits

/-- Applies the edits, the one with the latest start first. The replacements of edits at one start
come out in the order in which the edits are listed. -/
def splice (text : Text) (edits : List Edit) : Text := (orderEdits edits).foldr Edit.apply text

/-- Finds the source of an offset; `shift` is what the edits already passed have added. -/
def sourceOffsetAux (shift : Int) : List Edit → Int → Int
  | [], offset => offset - shift
  | e :: es, offset =>
      if offset < e.start + shift then offset - shift
      else if offset < e.start + shift + e.replacement.length then e.start
      else sourceOffsetAux (shift + e.growth) es offset

/-- The offset in the text before the edits. Offsets inside a replacement come from the start of
the span that it replaced. -/
def sourceOffset (edits : List Edit) (offset : Int) : Int :=
  sourceOffsetAux 0 (orderEdits edits) offset

end Galley
