import Galley.Fence

/-!
Diagrams: pieces of drawing code that are typeset on their own.

* `requestedExtension`: the file name extension for a format option;
* `Diagram`: a diagram with its options;
* `Diagram.assetPath`: where the picture of a diagram belongs, below the build directory.
-/

namespace Galley

/-- The extensions of the formats that may be asked for. -/
def formatExtensions : List (Text × Text) :=
  [("png".toList, "png".toList), ("jpg".toList, "jpg".toList), ("jpeg".toList, "jpg".toList),
    ("webp".toList, "webp".toList), ("svg".toList, "svg".toList), ("vector".toList, "svg".toList)]

/-- The extension of pictures in no known format. -/
def defaultExtension : Text := "png".toList

/-- The extension for a format option. -/
def requestedExtension (format : Option Text) : Text :=
  (formatExtensions.lookup (foldWord (Text.trim (format.getD [])))).getD defaultExtension

/-- A diagram lifted out of a document. -/
structure Diagram where
  id : Text
  source : Text
  options : DiagramOptions
deriving DecidableEq

namespace Diagram

/-- The directory of the pictures, below the build directory. -/
def outputFolder : Text := "tikz".toList

/-- The extension of the picture. -/
def extension (d : Diagram) : Text := requestedExtension d.options.format

/-- The name of the picture, without its directory. -/
def assetName (d : Diagram) : Text := d.id ++ '.' :: d.extension

/-- Where the picture belongs, below the build directory. -/
def assetPath (d : Diagram) : Text := outputFolder ++ '/' :: d.assetName

end Diagram

end Galley
