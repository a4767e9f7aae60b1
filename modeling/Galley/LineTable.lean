import Galley.Text.Utf8

/-!
Lines of a text, and the conversion between offsets, lines with columns, and octets.

* `LineTable`: a text with the starts of its lines, in characters and in octets;
* `LineTable.lineStart`, `lineEnd`, `firstNonBlank`: offsets in a line;
* `LineTable.lineColumn`, `byteOffset`: where an offset is;
* `EditorPosition`, `LineTable.position`: the position as an editor reports it.
-/

namespace Galley

/-- A character that ends a line; a carriage return and a line feed after it end one line
together. -/
def isLineBreak (c : Char) : Bool := c == '\n' || c == '\r'

/-- The start of a line: an offset, and the number of octets before it. -/
structure LineStart where
  offset : Nat
  bytes : Nat
deriving DecidableEq

/-- The starts of the lines after the first; `at` is the place of the text that is left. -/
def lineStartsAux (place : LineStart) : Text → List LineStart
  | [] => []
  | '\r' :: '\n' :: cs =>
      let next : LineStart := ⟨place.offset + 2, place.bytes + 2⟩
      next :: lineStartsAux next cs
  | c :: cs =>
      let next : LineStart := ⟨place.offset + 1, place.bytes + c.utf8Size⟩
      if isLineBreak c then next :: lineStartsAux next cs else lineStartsAux next cs

/-- A text with the starts of its lines. -/
structure LineTable where
  text : Text
  starts : List LineStart

/-- A place in a text as editors report it: octets from the start, line and column from zero. -/
structure EditorPosition where
  offset : Int
  line : Int
  column : Int
deriving DecidableEq

namespace LineTable

/-- The table of a text. -/
def ofText (text : Text) : LineTable := ⟨text, ⟨0, 0⟩ :: lineStartsAux ⟨0, 0⟩ text⟩

variable (t : LineTable)

/-- The start of a line; lines past the last one start at the end of the text. -/
def lineStart (line : Nat) : Nat :=
  match t.starts[line]? with
  | some s => s.offset
  | none => t.text.length

/-- The offset of the break that ends a line, or the end of the text. -/
def lineEnd (line : Nat) : Nat :=
  let start := t.lineStart line
  start + ((t.text.drop start).takeWhile (!isLineBreak ·)).length

/-- The text of a line without its break. -/
def lineText (line : Nat) : Text :=
  (t.text.drop (t.lineStart line)).takeWhile (!isLineBreak ·)

/-- The offset of the first character of a line that is not a blank, or of its end. -/
def firstNonBlank (line : Nat) : Nat :=
  t.lineStart line + blankCount (t.lineText line)

/-- The starts that do not lie after an offset. -/
def startsUpTo (offset : Nat) : List LineStart := t.starts.takeWhile (·.offset ≤ offset)

/-- The line that an offset is on, with its start. -/
def lineAt (offset : Nat) : Nat × LineStart :=
  let passed := t.startsUpTo offset
  (passed.length - 1, passed.getLast?.getD ⟨0, 0⟩)

/-- The line and the column of an offset. -/
def lineColumn (offset : Nat) : Nat × Nat :=
  let (line, start) := t.lineAt offset
  (line, offset - start.offset)

/-- The number of octets before an offset. -/
def byteOffset (offset : Nat) : Nat :=
  let (_, start) := t.lineAt offset
  start.bytes + utf8Size ((t.text.drop start.offset).take (offset - start.offset))

/-- The position of an offset. -/
def position (offset : Nat) : EditorPosition :=
  let (line, column) := t.lineColumn offset
  ⟨t.byteOffset offset, line, column⟩

end LineTable

end Galley
