import Galley.Number.Binary64
import Galley.Text.Basic

/-!
Pictures of pages. A page is painted at a resolution, which is lowered for large pages.

* `Resolution`, `Resolution.zoom?`: the resolution, and the factor for a page of some size;
* `Page`, `Picture`: the box of a page, and the kind and size of its picture;
* `paint`: the picture of the first page of a document.
-/

namespace Galley

/-- The points of an inch that are painted, and the bound of the longer side. -/
structure Resolution where
  dotsPerInch : Binary64
  maxSide : Int

/-- Lengths on a page are points, 72 to an inch. -/
def pointsPerInch : Binary64 := .ofScaled false 72 0

/-- The larger one of two numbers. -/
def larger (x y : Binary64) : Binary64 := if x.lt y then y else x

/-- An integer as a number, an infinity if it is too large. -/
def numberOf (n : Int) : Binary64 := (Binary64.ofInt? n).getD (.infinity (n < 0))

/-- The factor from points to painted points. It is lowered so that the longer side keeps its bound;
that fails for a page without extent and a negative bound. -/
def Resolution.zoom? (r : Resolution) (width height : Binary64) : Option Binary64 :=
  let zoom := r.dotsPerInch.div pointsPerInch
  let longest := (larger width height).mul zoom
  let bound := numberOf r.maxSide
  if bound.lt longest then
    if longest.isZero then none else some (zoom.mul (bound.div longest))
  else some zoom

/-- The box of a page, by two opposite corners. -/
structure Page where
  left : Binary64
  bottom : Binary64
  right : Binary64
  top : Binary64

/-- The formats of painted pictures. -/
inductive PictureFormat where
  | png
  | jpeg
  | webp
deriving DecidableEq

/-- The format of the painted pictures with a file name extension. -/
def PictureFormat.ofExtension (extension : Text) : PictureFormat :=
  if extension = "jpg".toList then .jpeg
  else if extension = "webp".toList then .webp
  else .png

/-- A picture: painted in some size, or drawn by lines. -/
inductive Picture where
  | painted (format : PictureFormat) (width height : Nat)
  | drawn
deriving DecidableEq

/-- Why a page has no picture. -/
inductive PaintError where
  | noPages
  | noArea
  | noZoom
deriving DecidableEq

/-- The wording of an error. -/
def PaintError.message : PaintError → Text
  | noPages => "Diagram PDF did not contain any pages".toList
  | noArea => "Diagram PDF page has no area".toList
  | noZoom => "Failed to rasterize diagram PDF: float division by zero".toList

/-- The number of painted points nearest to a length. -/
def paintedPoints (length : Binary64) : Nat :=
  ((length.add (.ofScaled false 5 (-1))).truncate?.getD 0).toNat

/-- The picture of the first page of a document. -/
def paint (r : Resolution) (pages : List Page) (extension : Text) : Except PaintError Picture :=
  match pages with
  | [] => .error .noPages
  | page :: _ =>
      let width := page.right.sub page.left
      let height := page.top.sub page.bottom
      if width.le .zero || height.le .zero then .error .noArea
      else if extension = "svg".toList then .ok .drawn
      else
        match r.zoom? width height with
        | none => .error .noZoom
        | some zoom =>
            .ok (.painted (.ofExtension extension) (paintedPoints (width.mul zoom))
              (paintedPoints (height.mul zoom)))

end Galley
