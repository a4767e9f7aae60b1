import Galley.Markdown.Definition

/-!
Quotes, lists and footnotes, and the sequence of blocks inside any container.

* `Reader`: reads the blocks of a range of lines;
* `quoteRule`, `listRule`, `noteRule`: containers, whose content is read by another reader;
* `blocksWith`: reads one block after the other, given the readers for what lies deeper;
* `reader`: the reader with room for a number of containers.
-/

namespace Galley.Markdown

/-- Reads the blocks from a line to before another one, and gives the line behind them. -/
abbrev Reader := Context → Lines → Nat → Nat → Found

/-! ### Quotes -/

/-- What a quote leaves of a line whose content is its mark and `rest`. One space behind the mark
belongs to the mark; a tab there counts as one if it is one column wide. -/
def quotedLine (l : Line) (rest : Text) : Line :=
  let start := l.indent.toNat + 1
  let build (gap : Bool) (text : Text) (initial base : Nat) : Line :=
    let (column, _) := skipBlanks base initial text
    ⟨text, blankCount text, column - initial, start + (if gap then 1 else 0), l.ended⟩
  match rest with
  | ' ' :: text => build true text (start + 1) l.base
  | '\t' :: text =>
      if (l.base + start) % 4 == 3 then build true text (start + 1) l.base
      else build true rest start (l.base + 1)
  | _ => build false rest start l.base

/-- The lines of a quote, as they are inside it, the line behind it, and whether another block ends
it there. `lastVoid` says that the last line was empty inside the quote. -/
def quoteLines (ctx : Context) (stop : Nat) : Nat → Bool → Lines → Nat → Lines × Nat × Bool
  | 0, _, lines, line => (lines, line, false)
  | fuel + 1, lastVoid, lines, line =>
      let l := lines.at line
      match l.content with
      | [] => (lines, line, false)
      | c :: rest =>
          if c == '>' && !(l.indent < ctx.indent) then
            let inner := quotedLine l rest
            quoteLines ctx stop fuel inner.isVoid (lines.set line inner) (line + 1)
          else if lastVoid then (lines, line, false)
          else if endsQuote ctx l then (lines, line, true)
          else quoteLines ctx stop fuel false (lines.set line { l with indent := -1 }) (line + 1)

/-- A quote. -/
def quoteRule (inner : Reader) (ctx : Context) (lines : Lines) (line stop : Nat) : Option Found :=
  if opensQuote ctx (lines.at line) then
    let l := quotedLine (lines.at line) (lines.at line).content.tail
    let (inside, past, ended) :=
      quoteLines ctx stop (stop - (line + 1)) l.isVoid (lines.set line l) (line + 1)
    let limit := if ended then past else ctx.limit
    let (events, next) :=
      inner { ctx with indent := 0, limit, depth := ctx.depth + 1 } inside line past
    some (.block ⟨.quote, line, next, ctx.depth⟩ :: events, next)
  else none

/-! ### Lists -/

/-- What a list item leaves of its first line, and the column where its content begins. -/
def itemLine (l : Line) (marker : ListMarker) : Line × Nat :=
  let start := l.indent.toNat + marker.width
  let body := l.content.drop marker.width
  let (column, rest) := skipBlanks l.base start body
  let gap := if rest.isEmpty || 4 < column - start then 1 else column - start
  ({ l with shift := l.shift + marker.width + (body.length - rest.length), indent := column },
    start + gap)

/-- The blocks of one item, and the line behind it. -/
def itemBlocks (inner : Reader) (ctx : Context) (lines : Lines) (line stop : Nat)
    (marker : ListMarker) : Found :=
  let (l, indent) := itemLine (lines.at line) marker
  if l.isVoid && (lines.at (line + 1)).isVoid then ([], min (line + 2) stop)
  else
    inner { ctx with indent, listIndent := some ctx.indent, depth := ctx.depth + 2 }
      (lines.set line l) line stop

/-- The marker of the item that goes on with the list of another marker. -/
def nextMarker? (ctx : Context) (l : Line) (marker : ListMarker) : Option ListMarker :=
  if l.indent < ctx.indent || ctx.isCode l || endsItem ctx l then none
  else
    (if marker.ordered then orderedMarker? l.content else bulletMarker? l.content).filter
      (·.delimiter == marker.delimiter)

/-- The items of a list from `line` on. -/
def listItems (inner : Reader) (ctx : Context) (lines : Lines) (stop : Nat) :
    Nat → ListMarker → Nat → Found
  | 0, _, line => ([], line)
  | fuel + 1, marker, line =>
      let (events, next) := itemBlocks inner ctx lines line stop marker
      let item := .block ⟨.item, line, next, ctx.depth + 1⟩ :: events
      if stop ≤ next then (item, next)
      else
        match nextMarker? ctx (lines.at next) marker with
        | none => (item, next)
        | some marker =>
            let (more, past) := listItems inner ctx lines stop fuel marker next
            (item ++ more, past)

/-- A list. -/
def listRule (inner : Reader) (ctx : Context) (lines : Lines) (line stop : Nat) : Option Found :=
  (listOpening? ctx (lines.at line) false).map fun marker =>
    let (events, past) := listItems inner ctx lines stop (stop - line) marker line
    let shape := if marker.ordered then .orderedList else .bulletList
    (.block ⟨shape, line, past, ctx.depth⟩ :: events, past)

/-! ### Footnotes -/

/-- What a footnote leaves of its first line, whose content ends with `rest`. -/
def noteLine (l : Line) (rest : Text) (indent : Nat) : Line :=
  let start := l.indent.toNat + (l.content.length - rest.length)
  let width := (skipBlanks 0 start rest).1 - start
  { l with
    text := rest
    shift := blankCount rest
    indent := if width < indent then width + indent else width }

/-- A footnote. Its content is indented by four columns. -/
def noteRule (inner : Reader) (ctx : Context) (lines : Lines) (line stop : Nat) : Option Found :=
  let l := lines.at line
  if ctx.isCode l then none
  else (noteLabel? l.content).map fun (label, rest) =>
    let indent := ctx.indent + 4
    let (events, past) :=
      inner { ctx with indent, depth := ctx.depth + 1 } (lines.set line (noteLine l rest indent))
        line stop
    (.openNote label :: (events ++ [.closeNote]), past)

/-! ### Sequences of blocks -/

/-- The first line from `line` on that has content, or the limit. -/
def skipVoid (lines : Lines) : Nat → Nat → Nat
  | 0, line => line
  | fuel + 1, line => if (lines.at line).isVoid then skipVoid lines fuel (line + 1) else line

/-- The block that begins at a line. `inner` reads what is one container deeper, `items` what is
two containers deeper. -/
def blockAt (inner items : Reader) (ctx : Context) (lines : Lines) (line stop : Nat) : Found :=
  (tableRule ctx lines line stop
    <|> codeRule ctx lines line stop
    <|> mathRule ctx lines line stop
    <|> fenceRule ctx lines line stop
    <|> quoteRule inner ctx lines line stop
    <|> breakRule ctx lines line stop
    <|> listRule items ctx lines line stop
    <|> noteRule inner ctx lines line stop
    <|> definitionRule ctx lines line stop
    <|> htmlRule ctx lines line stop
    <|> headingRule ctx lines line stop
    <|> underlinedRule ctx lines line stop).getD
  (paragraph ctx lines line)

/-- Reads one block after the other with the given rules, until a line is left of the container. -/
def sequence (rules : Context → Lines → Nat → Nat → Found) (ctx : Context) (lines : Lines)
    (stop : Nat) : Nat → Nat → Found
  | 0, line => ([], line)
  | fuel + 1, line =>
      if stop ≤ line then ([], line)
      else
        let line := skipVoid lines (ctx.limit - line) line
        if stop ≤ line || (lines.at line).indent < ctx.indent then ([], line)
        else
          let (events, next) := rules ctx lines line stop
          let next := if next < stop && (lines.at next).isVoid then next + 1 else next
          let (more, past) := sequence rules ctx lines stop fuel next
          (events ++ more, past)

/-- Reads one block after the other, given the readers for what lies deeper. -/
def blocksWith (inner items : Reader) : Reader := fun ctx lines line stop =>
  sequence (blockAt inner items) ctx lines stop (stop - line) line

/-- Skips whatever lies inside too many containers. -/
def skipDeep : Reader := fun ctx lines line stop =>
  sequence (fun _ _ _ stop => ([], stop)) ctx lines stop (stop - line) line

/-- The reader with room for a number of containers. -/
def reader : Nat → Reader
  | 0 => skipDeep
  | 1 => blocksWith skipDeep skipDeep
  | room + 2 => blocksWith (reader (room + 1)) (reader room)

/-- Containers nest at most this deep. -/
def maxDepth : Nat := 20

/-- The block structure of the lines of a document. -/
def blockEvents (lines : Lines) : List Event :=
  (reader maxDepth ⟨0, none, lines.length, 0⟩ lines 0 lines.length).1

end Galley.Markdown
