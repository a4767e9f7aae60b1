import Galley.LineTable
import Galley.Number.Binary64
import Galley.Text.CodePoint

/-!
Anchors: the invisible labels of a document, with the places that they tie together.

* `PagePosition`: a place in the typeset document;
* `Anchor`: a label with its place in the authored text and, once known, in the typeset document.
-/

namespace Galley

/-- A place in the typeset document: the page from one on, and coordinates on it. -/
structure PagePosition where
  page : Int
  x : Binary64
  y : Binary64
deriving DecidableEq

/-- A label with its place in the authored text and, once it is known, in the typeset document. -/
structure Anchor where
  id : CodeText
  editor : EditorPosition
  rendered : Option PagePosition := none
deriving DecidableEq

end Galley
