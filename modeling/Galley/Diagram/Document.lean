import Galley.Diagram

/-!
The LaTeX document around a diagram.

* `LineRole`, `lineRole`: where a line of a diagram belongs;
* `splitSource`: the lines that belong in front of the document body, and the body;
* `Diagram.document`: the document that is compiled for a diagram.
-/

namespace Galley

namespace Latex

/-- The line that begins the body of a document. -/
def beginDocument : Text := "\\begin\x7bdocument\x7d".toList

/-- The line that ends the body of a document. -/
def endDocument : Text := "\\end\x7bdocument\x7d".toList

/-- The beginning of a picture. -/
def beginPicture : Text := "\\begin\x7btikzpicture\x7d".toList

/-- The end of a picture. -/
def endPicture : Text := "\\end\x7btikzpicture\x7d".toList

/-- The class of a document. -/
def documentClass : Text := "\\documentclass".toList

/-- The first lines of every document of a diagram. -/
def basePreamble : Text :=
  "\\documentclass[border=2pt]\x7bstandalone\x7d\n\\usepackage\x7btikz\x7d\n".toList

/-- The commands that have to stand in front of the body of a document. -/
def preambleCommands : List Text :=
  ["\\usepackage".toList, "\\RequirePackage".toList, "\\PassOptionsToPackage".toList,
    "\\usetikzlibrary".toList]

/-- Where a line of a diagram belongs. -/
inductive LineRole where
  | preamble
  | body
  | dropped
deriving DecidableEq

/-- Where a line belongs. The bounds of a document and its class come from the template. -/
def lineRole (line : Text) : LineRole :=
  let code := Text.trim line
  if code.isEmpty then .body
  else if beginDocument.isPrefixOf code || endDocument.isPrefixOf code then .dropped
  else if occursIn documentClass code then .dropped
  else if preambleCommands.any (occursIn · code) then .preamble
  else .body

/-- The lines of a diagram with a role. -/
def linesFor (role : LineRole) (source : Text) : List Text :=
  (splitLines source).filter fun line => lineRole line == role

/-- The text with a line feed at its end. -/
def endLine (t : Text) : Text := if t.getLast? == some '\n' then t else t ++ ['\n']

/-- Drawing code inside a picture. Code with a picture of its own and code without any content stay
as they are. -/
def wrapPicture (body : Text) : Text :=
  if occursIn beginPicture body || occursIn endPicture body || body.isVoid then body
  else beginPicture ++ '\n' :: (body ++ '\n' :: (endPicture ++ ['\n']))

/-- The lines that belong in front of the body, and the body. -/
def splitSource (source : Text) : Text × Text :=
  let preamble := joinWith ['\n'] (linesFor .preamble source)
  (if preamble.isEmpty then [] else endLine preamble,
    wrapPicture (joinWith ['\n'] (linesFor .body source)))

/-- A part of a preamble, if it is not empty. -/
def preamblePart (t : Text) : Text := if t.isEmpty then [] else endLine t

end Latex

open Latex in
/-- The document that is compiled for a diagram. -/
def Diagram.document (d : Diagram) : Text :=
  let (preamble, body) := splitSource d.source
  basePreamble ++ preamblePart (d.options.preamble.getD []) ++ preamblePart preamble ++
    beginDocument ++ '\n' :: (endLine body ++ endDocument ++ ['\n'])

end Galley
