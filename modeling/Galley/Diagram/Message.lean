import Galley.Text.Basic

/-!
Messages of a compiler, and the document that shows one in place of a diagram.

* `summarize`: the last lines of an output;
* `shorten`: a message on one line, of bounded length;
* `Latex.escape`: a text inside a LaTeX document;
* `errorDocument`: the document that shows a message.
-/

namespace Galley

/-! ### Outputs and messages -/

/-- Carriage returns in front of line feeds are removed. -/
def joinBreaks : Text → Text
  | '\r' :: '\n' :: cs => '\n' :: joinBreaks cs
  | c :: cs => c :: joinBreaks cs
  | [] => []

/-- The members of a list from an offset on, where offsets may count from the end. -/
def sliceFrom (start : Int) (xs : List Text) : List Text :=
  if start < 0 then xs.drop (xs.length - (-start).toNat) else xs.drop start.toNat

/-- The lines of an output that hold something, the last `limit` of them; zero keeps them all, and a
negative limit drops lines at the start. -/
def summarize (limit : Int) (output : Text) : Text :=
  let lines := (splitAt (· == '\n') (joinBreaks output)).filter (!·.isVoid)
  joinWith ['\n'] (sliceFrom (-limit) (lines.map (dropEndWhile isSpace)))

/-- The number of lines that a report shows. -/
def reportedLines : Int := 12

/-- Line breaks become spaces, a carriage return and a line feed one space together. -/
def flatten : Text → Text
  | '\r' :: '\n' :: cs => ' ' :: flatten cs
  | c :: cs => (if c == '\n' || c == '\r' then ' ' else c) :: flatten cs
  | [] => []

/-- The number of characters that are shown of a message. -/
def maxMessage : Nat := 240

/-- A message on one line; a long one is cut, with a mark. -/
def shorten (message : Text) : Text :=
  let flat := flatten (Text.trim message)
  if maxMessage < flat.length then flat.take maxMessage ++ ['…'] else flat

/-! ### The document -/

namespace Latex

/-- One character inside a document. -/
def escapeChar (c : Char) : Text :=
  match c with
  | '\\' => "\\textbackslash\x7b\x7d".toList
  | '\x7b' => ['\\', '\x7b']
  | '\x7d' => ['\\', '\x7d']
  | '%' => ['\\', '%']
  | '$' => ['\\', '$']
  | '#' => ['\\', '#']
  | '_' => ['\\', '_']
  | '&' => ['\\', '&']
  | '^' => "\\^\x7b\x7d".toList
  | '~' => "\\~\x7b\x7d".toList
  | c => [c]

/-- A text inside a document. -/
def escape (t : Text) : Text := t.flatMap escapeChar

end Latex

/-- The document that shows a message in place of a diagram. -/
def errorDocument (message : Text) : Text :=
  "\\documentclass[border=6pt,varwidth=14cm]\x7bstandalone\x7d\n".toList ++
    "\\usepackage\x7bxcolor\x7d\n\\begin\x7bdocument\x7d\n".toList ++
    "\\color\x7bred\x7d\\ttfamily TikZ render failed:\\par ".toList ++
    Latex.escape (shorten message) ++ "\n\\end\x7bdocument\x7d\n".toList

end Galley
