import Galley.Json.Writer
import Galley.SourceMap.Query

/-!
Source maps: the anchors of a document in their order, and the ways to look one up.

* `SourceMap`: the anchors;
* `merge`: gives anchors the positions of a report;
* `SourceMap.findById?`, `nearestToOffset?`, `nearestToRendered?`: the anchor of a name, and the
  last one up to a place in the authored text or in the typeset document;
* `SourceMap.toJson`, `SourceMap.written`: the form in which a source map is written, and its text.
-/

namespace Galley

/-- The anchors of a document in their order. -/
structure SourceMap where
  anchors : List Anchor

/-- The anchors with the positions of a report. Anchors that the report does not know have none. -/
def merge (anchors : List Anchor) (tree : Json) : Except NumberFault SourceMap := do
  let positions ← positionsOf tree
  .ok ⟨anchors.map fun a => { a with rendered := positions.lookup a.id }⟩

/-! ### Order of positions -/

/-- A place in the typeset document, as far as the order of places goes. -/
structure PagePlace where
  page : Int
  y : Binary64
deriving DecidableEq

/-- The place of a position. -/
def PagePosition.place (p : PagePosition) : PagePlace := ⟨p.page, p.y⟩

/-- A place is not behind another one: it is on an earlier page, or on the same page and not further
down. -/
def PagePlace.upTo (p q : PagePlace) : Bool :=
  if p.page = q.page then p.y.le q.y else p.page < q.page

namespace SourceMap

/-! ### Look-up -/

/-- The first anchor with a name. -/
def findById? (m : SourceMap) (id : CodeText) : Option Anchor := m.anchors.find? (·.id == id)

/-- The last anchor before the first one that lies behind an offset in octets. -/
def nearestToOffset? (m : SourceMap) (offset : Int) : Option Anchor :=
  (m.anchors.takeWhile (·.editor.offset ≤ offset)).getLast?

/-- The better one of two anchors with places: the later one in the document, or of two at one place
the later one in the list. -/
def betterOf (best : Option (Anchor × PagePlace)) (a : Anchor) (place : PagePlace) :
    Option (Anchor × PagePlace) :=
  match best with
  | none => some (a, place)
  | some (b, bestPlace) => if bestPlace.upTo place then some (a, place) else some (b, bestPlace)

/-- Looks for the best anchor up to a place. -/
def nearestAux (bound : PagePlace) (best : Option (Anchor × PagePlace)) :
    List Anchor → Option (Anchor × PagePlace)
  | [] => best
  | a :: as =>
      match a.rendered with
      | none => nearestAux bound best as
      | some position =>
          let place := position.place
          nearestAux bound (if place.upTo bound then betterOf best a place else best) as

/-- The last anchor up to a place in the typeset document. -/
def nearestToRendered? (m : SourceMap) (bound : PagePlace) : Option Anchor :=
  (nearestAux bound none m.anchors).map Prod.fst

/-! ### Writing -/

/-- An anchor as it is written. -/
def anchorJson (a : Anchor) : Json :=
  let editor := Json.ofFields [("offset", .integer a.editor.offset),
    ("line", .integer a.editor.line), ("column", .integer a.editor.column)]
  Json.ofFields ([("id", .string a.id), ("editor", editor)] ++
    match a.rendered with
    | some p =>
        [("pdf", Json.ofFields [("page", .integer p.page), ("x", .real p.x), ("y", .real p.y)])]
    | none => [])

/-- The form in which a source map is written. -/
def toJson (m : SourceMap) : Json := Json.ofFields [("anchors", .array (m.anchors.map anchorJson))]

/-- The text of a source map: on one line, or on several lines with an indentation, which is none if
it is below zero. -/
def written (indent : Option Int) (m : SourceMap) : Text :=
  Json.write (indent.map Int.toNat) m.toJson

end SourceMap

end Galley
