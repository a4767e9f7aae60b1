import Galley.Text.Basic

/-!
The blocks of a document, in document order.

* `Shape`: the kinds of blocks, with the text that they hold;
* `Block`: a shape with its range of lines and its depth;
* `Event`: what the block structure consists of: blocks, link definitions, and the bounds of
  footnotes;
* `StructureError`: why a text has no block structure.
-/

namespace Galley.Markdown

/-- A kind of block with the text that it holds. -/
inductive Shape where
  | paragraph (text : Text)
  | heading (text : Text)
  | fence (mark info body : Text)
  | code (body : Text)
  | html (body : Text)
  | thematicBreak
  | math
  | table (cells : List Text)
  | quote
  | bulletList
  | orderedList
  | item
deriving DecidableEq

/-- A block: it covers the lines from `first` to before `past`, inside `depth` containers. -/
structure Block where
  shape : Shape
  first : Nat
  past : Nat
  depth : Nat
deriving DecidableEq

/-- A part of the block structure. A footnote encloses the events between its two bounds. A short
line is raw HTML that ends with the text, in a line without content that does not reach the
indentation of its container. -/
inductive Event where
  | block (b : Block)
  | link (label : Text)
  | openNote (label : Text)
  | closeNote
  | shortLine
deriving DecidableEq

/-- Why a text has no block structure: there is a short line. -/
inductive StructureError where
  | shortLine
deriving DecidableEq

/-- The text of a shape that is read for inline markup. -/
def Shape.inlineTexts : Shape → List Text
  | .paragraph text => [text]
  | .heading text => [text]
  | .table cells => cells
  | _ => []

end Galley.Markdown
