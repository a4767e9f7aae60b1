import Galley.Markdown.Block
import Galley.Markdown.Start

/-!
Blocks without blocks inside. Each rule looks at a line, and gives the block that begins there and
the line behind it, if the block is of its kind.

* `tableRule`, `codeRule`, `mathRule`, `fenceRule`, `breakRule`, `htmlRule`, `headingRule`,
  `underlinedRule`: the kinds that a line shows;
* `paragraph`: what is left.
-/

namespace Galley.Markdown

/-- What a rule finds: the events of a block, and the line behind it. -/
abbrev Found := List Event × Nat

/-- The events of one block that covers lines. -/
def foundBlock (ctx : Context) (shape : Shape) (first past : Nat) : Found :=
  ([.block ⟨shape, first, past, ctx.depth⟩], past)

/-! ### Tables -/

/-- A table may have this many cells more than were written. -/
def maxCompletedCells : Int := 0x10000

/-- Exactly `count` cells of a row; missing ones are empty. -/
def completeRow (count : Nat) (cells : List Text) : List Text :=
  (List.range count).map fun i => Text.unpad (cells.getD i [])

/-- Reads rows from `line` on; `completed` cells were missing so far. -/
def tableRows (ctx : Context) (lines : Lines) (count : Nat) :
    Nat → Int → Nat → List Text × Nat
  | 0, _, line => ([], line)
  | fuel + 1, completed, line =>
      let l := lines.at line
      let row := Text.unpad l.content
      if l.indent < ctx.indent || endsQuote ctx l || row.isEmpty || ctx.isCode l then ([], line)
      else
        let cells := rowCells row
        let completed := completed + (count - cells.length)
        if maxCompletedCells < completed then ([], line)
        else
          let (more, past) := tableRows ctx lines count fuel completed (line + 1)
          (completeRow count cells ++ more, past)

/-- A table with its head, the rule under it, and rows. -/
def tableRule (ctx : Context) (lines : Lines) (line stop : Nat) : Option Found :=
  (tableHead? ctx lines line stop).map fun head =>
    let (cells, past) := tableRows ctx lines head.length (stop - (line + 2)) 0 (line + 2)
    foundBlock ctx (.table (head.map Text.unpad ++ cells)) line past

/-! ### Code -/

/-- The line behind the last line of code; `past` is the one behind the last so far. -/
def codeEnd (ctx : Context) (lines : Lines) : Nat → Nat → Nat → Nat
  | 0, _, past => past
  | fuel + 1, line, past =>
      let l := lines.at line
      if l.isVoid then codeEnd ctx lines fuel (line + 1) past
      else if ctx.isCode l then codeEnd ctx lines fuel (line + 1) (line + 1)
      else past

/-- Indented code. -/
def codeRule (ctx : Context) (lines : Lines) (line stop : Nat) : Option Found :=
  if ctx.isCode (lines.at line) then
    let past := codeEnd ctx lines (stop - (line + 1)) (line + 1) (line + 1)
    let body := bodyText (4 + ctx.indent) false (lines.between line past) ++ ['\n']
    some (foundBlock ctx (.code body) line past)
  else none

/-- The line where a fence ends, and whether a mark closes it there. -/
def fenceEnd (ctx : Context) (lines : Lines) (opening : FenceOpening) : Nat → Nat → Nat × Bool
  | 0, line => (line, false)
  | fuel + 1, line =>
      let l := lines.at line
      match l.content with
      | [] => if l.ended then fenceEnd ctx lines opening fuel (line + 1) else (line, false)
      | c :: cs =>
          if l.indent < ctx.indent then (line, false)
          else
            let width := ((c :: cs).takeWhile (· == opening.mark)).length
            let rest := (c :: cs).dropWhile (· == opening.mark)
            if c == opening.mark && !ctx.isCode l && opening.width ≤ width && rest.all isBlank then
              (line, true)
            else fenceEnd ctx lines opening fuel (line + 1)

/-- Code between fences. -/
def fenceRule (ctx : Context) (lines : Lines) (line stop : Nat) : Option Found :=
  let l := lines.at line
  if ctx.isCode l then none
  else (fenceOpening? l.content).map fun opening =>
    let (last, closed) := fenceEnd ctx lines opening (stop - (line + 1)) (line + 1)
    let body := bodyText l.indent.toNat true (lines.between (line + 1) last)
    let mark := List.replicate opening.width opening.mark
    foundBlock ctx (.fence mark opening.info body) line (if closed then last + 1 else last)

/-! ### Math -/

/-- Two dollars, a label in parentheses, and spaces end the text. The text is reversed. -/
def endsLabelled (reversed : Text) : Bool :=
  match reversed.dropWhile isSpace with
  | ')' :: cs =>
      let label := cs.takeWhile fun c => !(c == ')' || c == '$' || c == '\r' || c == '\n')
      labelThenDollars label cs
  | _ => false
where
  /-- Some part of `label`, a parenthesis behind it, spaces and two dollars follow. -/
  labelThenDollars (label cs : Text) : Bool :=
    (List.range label.length).any fun n =>
      match cs.drop (n + 1) with
      | '(' :: rest => ['$', '$'].isPrefixOf (rest.dropWhile isSpace)
      | _ => false

/-- A line with this content ends displayed math. -/
def endsMath (content : Text) : Bool :=
  ['$', '$'].isSuffixOf (Text.trim content) || endsLabelled content.reverse

/-- The line behind displayed math that goes on at `line`. -/
def mathEnd? (lines : Lines) : Nat → Nat → Option Nat
  | 0, _ => none
  | fuel + 1, line =>
      if endsMath (lines.at line).content then some (line + 1) else mathEnd? lines fuel (line + 1)

/-- Displayed math between double dollars. -/
def mathRule (ctx : Context) (lines : Lines) (line stop : Nat) : Option Found :=
  let l := lines.at line
  if ctx.isCode l || !(['$', '$'].isPrefixOf l.content) then none
  else if 3 < (Text.trim l.content).length && endsMath l.content then
    some (foundBlock ctx .math line (line + 1))
  else if occursIn ['$', '$'] (l.content.drop 2) then none
  else (mathEnd? lines (stop - (line + 1)) (line + 1)).map (foundBlock ctx .math line)

/-! ### Breaks, raw HTML, headings -/

/-- A thematic break. -/
def breakRule (ctx : Context) (lines : Lines) (line _stop : Nat) : Option Found :=
  if opensBreak ctx (lines.at line) then some (foundBlock ctx .thematicBreak line (line + 1))
  else none

/-- The line behind raw HTML. -/
def htmlEnd (ctx : Context) (lines : Lines) (kind : HtmlKind) : Nat → Nat → Nat
  | 0, line => line
  | fuel + 1, line =>
      let l := lines.at line
      if l.indent < ctx.indent && !(kind.passesVoid && l.isVoid) then line
      else if kind.endsAt l.content then (if l.isVoid then line else line + 1)
      else htmlEnd ctx lines kind fuel (line + 1)

/-- The lines end with the text, in a line without content that stops short of its container. -/
def endsShort (ctx : Context) (lines : Lines) : Bool :=
  match lines.getLast? with
  | some l => !l.ended && l.isVoid && l.indent < ctx.indent
  | none => false

/-- A block of raw HTML. -/
def htmlRule (ctx : Context) (lines : Lines) (line stop : Nat) : Option Found :=
  let l := lines.at line
  if ctx.isCode l then none
  else (htmlKind? l.content).map fun kind =>
    let past :=
      if kind.endsAt l.content then line + 1
      else htmlEnd ctx lines kind (stop - (line + 1)) (line + 1)
    let part := lines.between line past
    if endsShort ctx part then ([.shortLine], past)
    else foundBlock ctx (.html (bodyText ctx.indent true part)) line past

/-- A heading with number signs. -/
def headingRule (ctx : Context) (lines : Lines) (line _stop : Nat) : Option Found :=
  let l := lines.at line
  if ctx.isCode l then none
  else (headingText? l.content).map fun text => foundBlock ctx (.heading text) line (line + 1)

/-! ### Paragraphs -/

/-- The text of a paragraph. -/
def paragraphText (ctx : Context) (lines : Lines) (first past : Nat) : Text :=
  Text.unpad (bodyText ctx.indent false (lines.between first past))

/-- The line goes on with the paragraph in front of it, whatever it looks like. -/
def continues (ctx : Context) (l : Line) : Bool := 3 < l.indent - ctx.indent || l.indent < 0

/-- The line behind a paragraph that goes on at `line`. -/
def paragraphEnd (ctx : Context) (lines : Lines) : Nat → Nat → Nat
  | 0, line => line
  | fuel + 1, line =>
      let l := lines.at line
      if l.isVoid then line
      else if !continues ctx l && endsParagraph ctx lines line ctx.limit then line
      else paragraphEnd ctx lines fuel (line + 1)

/-- The underline of a heading that goes on at `line`. -/
def underline? (ctx : Context) (lines : Lines) (stop : Nat) : Nat → Nat → Option Nat
  | 0, _ => none
  | fuel + 1, line =>
      let l := lines.at line
      if l.isVoid then none
      else if l.indent - ctx.indent ≤ 3 && ctx.indent ≤ l.indent && isUnderline l.content then
        some line
      else if !continues ctx l && endsParagraph ctx lines line stop then none
      else underline? ctx lines stop fuel (line + 1)

/-- A heading made by an underline. -/
def underlinedRule (ctx : Context) (lines : Lines) (line stop : Nat) : Option Found :=
  if ctx.isCode (lines.at line) then none
  else (underline? ctx lines stop (stop - (line + 1)) (line + 1)).map fun last =>
    foundBlock ctx (.heading (paragraphText ctx lines line last)) line (last + 1)

/-- A paragraph. -/
def paragraph (ctx : Context) (lines : Lines) (line : Nat) : Found :=
  let past := paragraphEnd ctx lines (ctx.limit - (line + 1)) (line + 1)
  foundBlock ctx (.paragraph (paragraphText ctx lines line past)) line past

end Galley.Markdown
