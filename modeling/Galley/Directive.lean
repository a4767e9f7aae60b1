import Galley.Fence
import Galley.LineTable
import Galley.Number.Numeral
import Galley.Number.Shortest

/-!
Directives for the typesetter. A directive is a call in an HTML comment on a line of its own, which
other readers of the markdown skip.

* `escapeString`: a text inside a string literal of the typesetter;
* `scaleArgument`: the argument that a scale option stands for;
* `diagramDirective`: the call that places a diagram;
* `labelDirective`, `labelMarkup`: the call that sets a label, and what is inserted for it.
-/

namespace Galley

/-- A directive around a call. -/
def directive (call : Text) : Text := "<!--raw-typst #".toList ++ call ++ " -->\n".toList

/-! ### Arguments -/

/-- One character in a string literal. -/
def escapeChar (c : Char) : Text :=
  match c with
  | '\\' => ['\\', '\\']
  | '"' => ['\\', '"']
  | '\n' => ['\\', 'n']
  | '\r' => ['\\', 'r']
  | '\t' => ['\\', 't']
  | c => [c]

/-- A text inside a string literal. -/
def escapeString (t : Text) : Text := t.flatMap escapeChar

/-- A text as a string literal. -/
def stringLiteral (t : Text) : Text := '"' :: (escapeString t ++ ['"'])

/-- Integers below this magnitude are written without a point. -/
def integerLimit : Nat := Nat.pow 10 16

/-- Removes zeros at the end of a number with a point and no exponent, but for one after the
point. -/
def dropEndZeros (t : Text) : Text :=
  if t.contains '.' && !t.contains 'e' then
    let short := dropEndWhile (· == '0') t
    if short.getLast? == some '.' then short ++ ['0'] else short
  else t

/-- A finite number as an argument. -/
def numberArgument (x : Binary64) : Text :=
  match x.isIntegral, x.truncate? with
  | true, some n => if n.natAbs < integerLimit then Text.ofInt n else dropEndZeros x.text
  | _, _ => dropEndZeros x.text

/-- The argument that a scale option stands for: a word, a number, or else a string. -/
def scaleArgument (raw : Text) : Text :=
  let trimmed := Text.trim raw
  let word := foldWord trimmed
  if trimmed.isEmpty || word = "none".toList then "none".toList
  else if word = "auto".toList then "auto".toList
  else
    match readNumber? trimmed with
    | some x => if x.isFinite then numberArgument x else stringLiteral trimmed
    | none => stringLiteral trimmed

/-! ### Diagrams -/

/-- The arguments of a diagram in their order. A blank scale and an empty format are left out. -/
def diagramArguments (source : Text) (options : DiagramOptions) : List Text :=
  ["diagram: ".toList ++ stringLiteral source] ++
    (match options.scale with
      | some scale => if scale.isVoid then [] else ["scale: ".toList ++ scaleArgument scale]
      | none => []) ++
    (match options.preamble with
      | some preamble => ["preamble: ".toList ++ stringLiteral preamble]
      | none => []) ++
    (match options.format with
      | some format => if format.isEmpty then [] else ["format: ".toList ++ stringLiteral format]
      | none => [])

/-- The directive that places a diagram. -/
def diagramDirective (source : Text) (options : DiagramOptions) : Text :=
  let arguments := joinWith ", ".toList (diagramArguments source options)
  directive ("tikz_render(".toList ++ arguments ++ [')'])

/-! ### Labels -/

/-- The directive that sets a label. -/
def labelDirective (id : Text) : Text := directive ("label(\"".toList ++ id ++ "\")".toList)

/-- What is inserted at an offset to set a label there. Indentation in front of the offset is
repeated after the label, so that what follows keeps its container. -/
def labelMarkup (table : LineTable) (offset : Nat) (id : Text) : Text :=
  let (line, column) := table.lineColumn offset
  if column = 0 then labelDirective id
  else
    let start := table.lineStart line
    let before := (table.text.drop start).take (offset - start)
    if before.all isBlank then labelDirective id ++ before else '\n' :: labelDirective id

end Galley
