import Galley.Markdown.Html
import Galley.Markdown.Line

/-!
What the first lines of blocks look like, and which blocks end the text in front of them.

* `Context`: what a container tells the lines inside it;
* `fenceOpening?`, `listMarker?`, `headingText?`, `noteLabel?`, `isThematicBreak`: the marks at the
  start of a line;
* `tableHead?`: the first two lines of a table;
* `endsParagraph`, `endsDefinition`, `endsQuote`, `endsItem`: whether a block begins that ends a
  paragraph, a link definition, a quote or table, or a list item.
-/

namespace Galley.Markdown

/-- What a container tells the lines inside it: the column where its content begins, the column of
the list around it, the line before which paragraphs end, and the number of containers. -/
structure Context where
  indent : Nat
  listIndent : Option Nat
  limit : Nat
  depth : Nat

/-- The content of a line is so far to the right that it is code. -/
def Context.isCode (ctx : Context) (l : Line) : Bool := 4 ≤ l.indent - ctx.indent

/-! ### Marks of leaf blocks -/

/-- The opening of a fence: the character and the length of its mark, and the info string. -/
structure FenceOpening where
  mark : Char
  width : Nat
  info : Text

/-- The fence that a line with this content opens. -/
def fenceOpening? (content : Text) : Option FenceOpening :=
  match content with
  | [] => none
  | c :: _ =>
      if c == '\x60' || c == '~' then
        let width := (content.takeWhile (· == c)).length
        let info := content.dropWhile (· == c)
        if width < 3 || (c == '\x60' && info.contains c) then none else some ⟨c, width, info⟩
      else none

/-- The content is a thematic break: at least three equal marks and blanks. -/
def isThematicBreak (content : Text) : Bool :=
  match content with
  | [] => false
  | c :: _ =>
      (c == '*' || c == '-' || c == '_') && content.all (fun d => d == c || isBlank d) &&
        3 ≤ content.count c

/-- The text of a heading without the marks that may close it. -/
def dropClosingMarks (t : Text) : Text :=
  let body := dropEndWhile isBlank t
  let short := dropEndWhile (· == '#') body
  if (short.getLast?.map isBlank).getD false then short else body

/-- The text of the heading with one to six number signs that a line with this content is. -/
def headingText? (content : Text) : Option Text :=
  let width := (content.takeWhile (· == '#')).length
  let rest := content.dropWhile (· == '#')
  if width = 0 || 6 < width || !(rest.head?.map isBlank).getD true then none
  else some (Text.unpad (dropClosingMarks rest))

/-- The content is an underline that makes a heading of the lines above. -/
def isUnderline (content : Text) : Bool :=
  match content with
  | [] => false
  | c :: _ => (c == '-' || c == '=') && (content.dropWhile (· == c)).all isBlank

/-! ### Marks of containers -/

/-- The marker of a list item: its characters, the one that tells lists apart coming last. -/
structure ListMarker where
  ordered : Bool
  width : Nat
  delimiter : Char
  number : Nat

/-- The text goes on with a blank or ends. -/
def atGap (t : Text) : Bool := (t.head?.map isBlank).getD true

/-- The marker of an ordered item: up to nine digits with a point or a parenthesis. -/
def orderedMarker? (content : Text) : Option ListMarker :=
  let digits := content.takeWhile isDigit
  match content.dropWhile isDigit with
  | d :: rest =>
      if digits.isEmpty || 9 < digits.length || !(d == '.' || d == ')') || !atGap rest then none
      else some ⟨true, digits.length + 1, d, natOfDigits digits⟩
  | [] => none

/-- The marker of a bullet item. -/
def bulletMarker? (content : Text) : Option ListMarker :=
  match content with
  | c :: rest =>
      if (c == '*' || c == '-' || c == '+') && atGap rest then some ⟨false, 1, c, 0⟩ else none
  | [] => none

/-- The marker of the list item that a line with this content opens. -/
def listMarker? (content : Text) : Option ListMarker :=
  orderedMarker? content <|> bulletMarker? content

/-- The label of the footnote that a line with this content defines, and the text behind its
colon. -/
def noteLabel? (content : Text) : Option (Text × Text) :=
  match content with
  | '[' :: '^' :: body =>
      let label := body.takeWhile (· != ']')
      if label.isEmpty || label.contains ' ' then none
      else
        match body.dropWhile (· != ']') with
        | ']' :: ':' :: rest => some (label, rest)
        | _ => none
  | _ => none

/-! ### Tables -/

/-- Splits a row at its bars; a backslash in front of a bar keeps it in its cell. `escaped` says
that a backslash came just before, `cell` is the cell being read, last character first. -/
def rowCellsAux (escaped : Bool) (cell : Text) : Text → List Text
  | [] => [cell.reverse]
  | c :: cs =>
      if c == '|' then
        if escaped then rowCellsAux false ('|' :: cell.drop 1) cs
        else cell.reverse :: rowCellsAux false [] cs
      else rowCellsAux (c == '\\') (c :: cell) cs

/-- The cells of a row, where empty ones at both ends come from bars that frame the row. -/
def rowCells (row : Text) : List Text :=
  let cells := rowCellsAux false [] row
  let cells := if cells.head? == some [] then cells.tail else cells
  if cells.getLast? == some [] then cells.dropLast else cells

/-- A piece of the line under the head of a table: hyphens with a colon or none at both ends. -/
def isColumnRule (piece : Text) : Bool :=
  let body := match piece with
    | ':' :: cs => cs
    | cs => cs
  let rest := body.dropWhile (· == '-')
  rest.length < body.length && (rest == [] || rest == [':'])

/-- The number of columns in the line under the head of a table. A piece may be empty at the ends
only. -/
def columnCount? (content : Text) : Option Nat :=
  let pieces := (splitAt (· == '|') content).map Text.unpad
  let inner := (pieces.drop 1).dropLast
  if inner.any (·.isEmpty) then none
  else
    let rules := pieces.filter (!·.isEmpty)
    if rules.all isColumnRule then some rules.length else none

/-- A line with this content may stand under the head of a table. -/
def isTableRule (content : Text) : Bool :=
  match content with
  | c :: d :: cs =>
      let isRuleChar := fun x => x == '|' || x == '-' || x == ':'
      isRuleChar c && (isRuleChar d || isBlank d) && !(c == '-' && isBlank d) &&
        cs.all fun x => isRuleChar x || isBlank x
  | _ => false

/-- The cells in the head of the table that begins at a line. -/
def tableHead? (ctx : Context) (lines : Lines) (line stop : Nat) : Option (List Text) :=
  let head := lines.at line
  let rule := lines.at (line + 1)
  let row := Text.unpad head.content
  if stop < line + 2 || rule.indent < ctx.indent || ctx.isCode rule || ctx.isCode head ||
      !isTableRule rule.content || !row.contains '|' then none
  else
    let cells := rowCells row
    if !cells.isEmpty && columnCount? rule.content == some cells.length then some cells else none

/-! ### Blocks that end other blocks -/

section Ends

variable (ctx : Context) (l : Line)

/-- The line opens a fence. -/
def opensFence : Bool := !ctx.isCode l && (fenceOpening? l.content).isSome

/-- The line opens a quote. -/
def opensQuote : Bool := !ctx.isCode l && l.content.head? == some '>'

/-- The line is a thematic break. -/
def opensBreak : Bool := !ctx.isCode l && isThematicBreak l.content

/-- The line is a heading. -/
def opensHeading : Bool := !ctx.isCode l && (headingText? l.content).isSome

/-- The line defines a footnote. -/
def opensNote : Bool := !ctx.isCode l && (noteLabel? l.content).isSome

/-- The line opens raw HTML that may stand directly behind other text. -/
def opensHtml : Bool :=
  !ctx.isCode l && ((htmlKind? l.content).map HtmlKind.interrupts).getD false

/-- The line lies so deep below the enclosing list that it goes on with a paragraph there. -/
def tooDeepForItem : Bool :=
  match ctx.listIndent with
  | some outer => 4 ≤ l.indent - outer && l.indent < ctx.indent
  | none => false

/-- The marker of the list that the line opens. Behind a paragraph, a list of this level has to
begin with text, and with the number one. -/
def listOpening? (behindParagraph : Bool) : Option ListMarker :=
  if ctx.isCode l || tooDeepForItem ctx l then none
  else (listMarker? l.content).filter fun m =>
    !(behindParagraph && ctx.indent ≤ l.indent) ||
      (!(m.ordered && m.number != 1) && !(l.content.drop m.width).all isBlank)

/-- The line opens a list. -/
def opensList (behindParagraph : Bool) : Bool := (listOpening? ctx l behindParagraph).isSome

end Ends

/-- A block begins at the line that ends a paragraph. -/
def endsParagraph (ctx : Context) (lines : Lines) (line stop : Nat) : Bool :=
  let l := lines.at line
  (tableHead? ctx lines line stop).isSome || opensFence ctx l || opensQuote ctx l ||
    opensBreak ctx l || opensList ctx l true || opensNote ctx l || opensHtml ctx l ||
    opensHeading ctx l

/-- A block begins at the line that ends a link definition. -/
def endsDefinition (ctx : Context) (lines : Lines) (line stop : Nat) : Bool :=
  let l := lines.at line
  (tableHead? ctx lines line stop).isSome || opensFence ctx l || opensQuote ctx l ||
    opensBreak ctx l || opensList ctx l false || opensNote ctx l || opensHtml ctx l ||
    opensHeading ctx l

/-- A block begins with the line that ends a quote or a table. -/
def endsQuote (ctx : Context) (l : Line) : Bool :=
  opensFence ctx l || opensQuote ctx l || opensBreak ctx l || opensList ctx l false ||
    opensHtml ctx l || opensHeading ctx l

/-- A block begins with the line that ends a list. -/
def endsItem (ctx : Context) (l : Line) : Bool :=
  opensFence ctx l || opensQuote ctx l || opensBreak ctx l

end Galley.Markdown
