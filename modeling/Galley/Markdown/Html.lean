import Galley.Text.Basic

/-!
Raw HTML in markdown.

* `TagPart`: the parts of an opening tag, and which ones may follow each other;
* `htmlTag?`: the rest of a text after one opening or closing tag;
* `htmlSpan?`: the rest of a text after one tag, comment, instruction, declaration or character
  data;
* `HtmlKind`, `htmlKind?`: the kinds of HTML blocks, told by their first line;
* `HtmlKind.endsAt`: the line that ends a block of a kind.

The elements that open a block by their name are those of CommonMark 0.31.2, which the block parser
follows since its version 4. In version 3, which follows CommonMark 0.30, `source` opens a block and
`search` does not; here it is the other way round.
-/

namespace Galley.Markdown

/-! ### Tags -/

/-- The rest of a text after the first occurrence of a piece. -/
def restAfter? (piece t : Text) : Option Text :=
  (firstOffset? piece t).map fun n => t.drop (n + piece.length)

/-- A character inside the name of a tag. -/
def isTagChar (c : Char) : Bool := isLetter c || isDigit c || c == '-'

/-- The rest of a text after the name of a tag. -/
def tagName? (t : Text) : Option Text :=
  match t with
  | c :: cs => if isLetter c then some (cs.dropWhile isTagChar) else none
  | [] => none

/-- A character that opens the name of an attribute. -/
def opensAttribute (c : Char) : Bool := isLetter c || c == '_' || c == ':'

/-- A character inside the name of an attribute. -/
def isAttributeChar (c : Char) : Bool := isTagChar c || c == ':' || c == '.' || c == '_'

/-- A character inside a value without quotes. Some spaces are among these, so that a tag may be
read in more than one way. -/
def isBareValueChar (c : Char) : Bool :=
  0x20 < c.toNat && !(c == '"' || c == '\'' || c == '=' || c == '<' || c == '>' || c == '\x60')

/-- What was read last of an opening tag. -/
inductive TagPart where
  | name
  | gap
  | label
  | labelGap
  | equals
  | bareValue
  | openValue (mark : Char)
  | closedValue
  | slash
deriving DecidableEq

namespace TagPart

/-- An attribute, or the end of the tag, may follow directly or behind a gap. -/
def isWhole : TagPart → Bool
  | equals => false
  | openValue _ => false
  | slash => false
  | _ => true

/-- The tag may end behind the part. -/
def mayEnd (p : TagPart) : Bool := p.isWhole || p == slash

/-- The parts that come of the part itself when a character is read. -/
def grow (c : Char) : TagPart → List TagPart
  | name => if isTagChar c then [name] else []
  | gap => if opensAttribute c then [label] else []
  | label => if isAttributeChar c then [label] else if c == '=' then [equals] else []
  | labelGap => if c == '=' then [equals] else if opensAttribute c then [label] else []
  | equals =>
      (if isSpace c then [equals] else []) ++ (if isBareValueChar c then [bareValue] else []) ++
        (if c == '"' || c == '\'' then [openValue c] else [])
  | bareValue => if isBareValueChar c then [bareValue] else []
  | openValue mark => if c == mark then [closedValue] else [openValue mark]
  | closedValue => []
  | slash => []

/-- The gap that a space makes behind a part. -/
def gapAfter : TagPart → TagPart
  | label => labelGap
  | labelGap => labelGap
  | _ => gap

/-- The parts that may come when a character is read. -/
def next (c : Char) (p : TagPart) : List TagPart :=
  p.grow c ++ (if p.isWhole && isSpace c then [p.gapAfter] else []) ++
    (if p.isWhole && c == '/' then [slash] else [])

end TagPart

/-- The rest of a text after the end of an opening tag, of which one of the parts was read last. -/
def afterTag? (parts : List TagPart) : Text → Option Text
  | [] => none
  | c :: cs =>
      if c == '>' && parts.any (·.mayEnd) then some cs
      else if parts.isEmpty then none
      else afterTag? (parts.flatMap (·.next c)).eraseDups cs

/-- The rest of a text after one opening or closing tag. -/
def htmlTag? (t : Text) : Option Text :=
  match t with
  | '<' :: '/' :: cs =>
      match (tagName? cs).map (·.dropWhile isSpace) with
      | some ('>' :: rest) => some rest
      | _ => none
  | '<' :: c :: cs => if isLetter c then afterTag? [.name] cs else none
  | _ => none

/-! ### Other spans -/

/-- The rest of a text after the body of a comment and its end. -/
def afterComment? : Text → Option Text
  | '-' :: '-' :: '>' :: rest => some rest
  | '-' :: '-' :: _ :: rest => afterComment? rest
  | ['-', '-'] => none
  | ['-'] => none
  | '-' :: _ :: rest => afterComment? rest
  | _ :: rest => afterComment? rest
  | [] => none

/-- The rest of a text after one tag, comment, instruction, declaration or character data. -/
def htmlSpan? (t : Text) : Option Text :=
  match t with
  | '<' :: '!' :: '-' :: '-' :: '>' :: rest => some rest
  | '<' :: '!' :: '-' :: '-' :: '-' :: '>' :: rest => some rest
  | '<' :: '!' :: '-' :: '-' :: cs => afterComment? cs
  | '<' :: '?' :: cs => restAfter? ['?', '>'] cs
  | '<' :: '!' :: c :: cs =>
      if isLetter c then restAfter? ['>'] cs
      else if "[CDATA[".toList.isPrefixOf (c :: cs) then
        restAfter? "]]>".toList (cs.drop 6)
      else none
  | _ => htmlTag? t

/-! ### Blocks -/

/-- The kinds of HTML blocks: verbatim elements, comments, instructions, declarations, character
data, the elements of block structure, and lone tags of any name. -/
inductive HtmlKind where
  | verbatim
  | comment
  | instruction
  | declaration
  | characterData
  | element
  | loneTag
deriving DecidableEq

/-- The elements whose content is verbatim. -/
def verbatimNames : List String := ["script", "pre", "style", "textarea"]

/-- The elements of block structure. -/
def elementNames : List String := [
  "address", "article", "aside", "base", "basefont", "blockquote", "body", "caption", "center",
  "col", "colgroup", "dd", "details", "dialog", "dir", "div", "dl", "dt", "fieldset", "figcaption",
  "figure", "footer", "form", "frame", "frameset", "h1", "h2", "h3", "h4", "h5", "h6", "head",
  "header", "hr", "html", "iframe", "legend", "li", "link", "main", "menu", "menuitem", "nav",
  "noframes", "ol", "optgroup", "option", "p", "param", "search", "section", "summary", "table",
  "tbody", "td", "tfoot", "th", "thead", "title", "tr", "track", "ul"]

/-- The text begins with one of the names in any case, and what follows it satisfies `p`. -/
def namedBy (names : List String) (p : Text → Bool) (t : Text) : Bool :=
  let folded := t.map smallLetter
  names.any fun name => name.toList.isPrefixOf folded && p (t.drop name.toList.length)

/-- The text is empty or begins with a space or a closing bracket. -/
def opensBoundary (t : Text) : Bool :=
  match t with
  | [] => true
  | c :: _ => isSpace c || c == '>'

/-- The kind of the HTML block whose first line has this content. -/
def htmlKind? (content : Text) : Option HtmlKind :=
  match content with
  | '<' :: cs =>
      if namedBy verbatimNames opensBoundary cs then some .verbatim
      else if "!--".toList.isPrefixOf cs then some .comment
      else if "?".toList.isPrefixOf cs then some .instruction
      else if cs.head? == some '!' &&
          (cs.tail.head?.map isLetter).getD false then some .declaration
      else if "![CDATA[".toList.isPrefixOf cs then some .characterData
      else if
        namedBy elementNames (fun rest => opensBoundary rest || ['/', '>'].isPrefixOf rest)
          (if cs.head? == some '/' then cs.tail else cs) then some .element
      else if ((htmlTag? content).map (·.all isSpace)).getD false then some .loneTag
      else none
  | _ => none

namespace HtmlKind

/-- A block of this kind may interrupt a paragraph. -/
def interrupts : HtmlKind → Bool
  | loneTag => false
  | _ => true

/-- A block of this kind goes on over lines without content. -/
def passesVoid : HtmlKind → Bool
  | element => false
  | loneTag => false
  | _ => true

/-- A closing tag of a verbatim element is somewhere in the text. -/
def closesVerbatim : Text → Bool
  | [] => false
  | c :: cs =>
      (c == '<' && cs.head? == some '/' &&
        namedBy verbatimNames (fun rest => rest.head? == some '>') cs.tail) || closesVerbatim cs

/-- A line with this content ends a block of the kind. -/
def endsAt : HtmlKind → Text → Bool
  | verbatim, t => closesVerbatim t
  | comment, t => occursIn "-->".toList t
  | instruction, t => occursIn "?>".toList t
  | declaration, t => occursIn ['>'] t
  | characterData, t => occursIn "]]>".toList t
  | _, t => t.isEmpty

end HtmlKind

end Galley.Markdown
