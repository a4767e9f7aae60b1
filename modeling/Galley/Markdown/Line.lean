import Galley.Text.Basic

/-!
Lines as the block structure sees them. A container hides the part of a line that belongs to it, so
what is left of a line carries its own measures of indentation.

* `Line`: what a container leaves of a line;
* `Lines.ofText`: the lines of a document;
* `skipBlanks`: the column after some blanks, where tabs reach to multiples of four;
* `Line.cut`, `bodyText`: the text of lines inside a block, without indentation.
-/

namespace Galley.Markdown

/-! ### Lines -/

/-- What a container leaves of a line. The first `shift` characters of the text are in front of
the content: blanks, or the marker of a list item. `indent` is the column of the content, counted
from the edge of the container; a negative one marks a line that only continues a paragraph.
`base` is the number of columns that the container has taken, and `ended` says that a line feed
follows. -/
structure Line where
  text : Text
  shift : Nat
  indent : Int
  base : Nat
  ended : Bool

/-- The lines of a document. -/
abbrev Lines := List Line

/-- A line without any text, as it stands for the lines past the last one. -/
def Line.void : Line := ⟨[], 0, 0, 0, false⟩

/-- The line with a number. -/
def Lines.at (lines : Lines) (n : Nat) : Line := lines.getD n Line.void

namespace Line

variable (l : Line)

/-- The text of a line from the first character of its content. -/
def content : Text := l.text.drop l.shift

/-- The line has no content. -/
def isVoid : Bool := l.content.isEmpty

end Line

/-- The column and the text after the blanks at the start of a text; a tab reaches to the next
multiple of four, counted from the edge of the document, `base` columns to the left. -/
def skipBlanks (base column : Nat) : Text → Nat × Text
  | [] => (column, [])
  | c :: cs =>
      if c == '\t' then skipBlanks base (column + (4 - (column + base) % 4)) cs
      else if c == ' ' then skipBlanks base (column + 1) cs
      else (column, c :: cs)

/-- The line of a document with the given text. -/
def Line.ofText (ended : Bool) (text : Text) : Line :=
  ⟨text, blankCount text, ((skipBlanks 0 0 text).1 : Nat), 0, ended⟩

/-- The lines of pieces between line feeds. A last piece of blanks alone is no line. -/
def linesOfPieces : List Text → Lines
  | [] => []
  | [last] => if last.all isBlank then [] else [Line.ofText false last]
  | piece :: pieces => Line.ofText true piece :: linesOfPieces pieces

/-- The lines of a document. -/
def Lines.ofText (t : Text) : Lines := linesOfPieces (splitAt (· == '\n') t)

/-! ### Text inside a block -/

/-- Cuts columns off. `column` columns and `passed` characters are cut already; the characters in
front of the content count as one column each. What a tab reaches past `indent` is left as spaces.
-/
def cutColumns (base shift indent column passed : Nat) : Text → Text
  | [] => List.replicate (column - indent) ' '
  | c :: cs =>
      if indent ≤ column then List.replicate (column - indent) ' ' ++ c :: cs
      else if c == '\t' then
        cutColumns base shift indent (column + (4 - (column + base) % 4)) (passed + 1) cs
      else if c == ' ' || passed < shift then
        cutColumns base shift indent (column + 1) (passed + 1) cs
      else c :: cs

/-- The text of a line without its first `indent` columns of indentation. -/
def Line.cut (indent : Nat) (l : Line) : Text := cutColumns l.base l.shift indent 0 0 l.text

/-- The text of lines without indentation. The line feed of the last one is kept on demand. -/
def bodyText (indent : Nat) (keepLast : Bool) : Lines → Text
  | [] => []
  | [l] => l.cut indent ++ (if keepLast && l.ended then ['\n'] else [])
  | l :: ls => l.cut indent ++ (if l.ended then ['\n'] else []) ++ bodyText indent keepLast ls

/-- The lines from `first` to before `past`. -/
def Lines.between (lines : Lines) (first past : Nat) : Lines :=
  (lines.drop first).take (past - first)

end Galley.Markdown
