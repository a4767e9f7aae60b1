import Galley.Anchor
import Galley.Diagram
import Galley.Directive
import Galley.Edit
import Galley.Markdown.Document

/-!
The two passes over authored markdown: diagrams become directives, and labels go in front of blocks.

* `FenceBlock.opening`, `diagramEdits`: the fences that are diagrams, and the edits that replace them;
* `extractDiagrams`: the text without its diagrams, and the diagrams;
* `anchorOffsets`: the offsets where labels go;
* `injectAnchors`: the text with labels, and the anchors;
* `preprocess`: both passes, with the anchors placed in the text as it was authored.
-/

namespace Galley

open Markdown (Block Shape StructureError parse)

/-! ### Diagrams -/

/-- A fence of the block structure. -/
structure FenceBlock where
  mark : Text
  info : Text
  body : Text
  first : Nat
  past : Nat
deriving DecidableEq

/-- The fence that a block is. -/
def FenceBlock.ofBlock? (b : Block) : Option FenceBlock :=
  match b.shape with
  | .fence mark info body => some ⟨mark, info, body, b.first, b.past⟩
  | _ => none

/-- The fences among blocks by their first lines. -/
def fences (blocks : List Block) : List FenceBlock :=
  orderBy (fun a b => a.first ≤ b.first) (blocks.filterMap FenceBlock.ofBlock?)

/-- The offset of the mark that opens a fence, and the info string as it is authored. -/
def FenceBlock.opening (f : FenceBlock) (table : LineTable) : Nat × Text :=
  let line := table.lineText f.first
  match (if f.mark.isEmpty then none else firstOffset? f.mark line) with
  | some n => (table.lineStart f.first + n, line.drop (n + f.mark.length))
  | none => (table.firstNonBlank f.first, f.info)

/-- The edit that replaces a fence by the directive of a diagram. -/
def diagramEdit (table : LineTable) (f : FenceBlock) (d : Diagram) : Edit :=
  ⟨(f.opening table).1, table.lineStart f.past, diagramDirective d.source d.options⟩

/-- The diagrams among fences, numbered from `count` on, each with the edit that replaces it. -/
def diagramEditsAux (table : LineTable) (count : Nat) : List FenceBlock → List (Edit × Diagram)
  | [] => []
  | f :: fs =>
      match Fence.diagramOptions? (f.opening table).2 with
      | none => diagramEditsAux table count fs
      | some options =>
          let d : Diagram := ⟨"tikz-".toList ++ Text.ofNat count, f.body, options⟩
          (diagramEdit table f d, d) :: diagramEditsAux table (count + 1) fs

/-- The diagrams of a document, each with the edit that replaces its fence. -/
def diagramEdits (markdown : Text) : Except StructureError (List (Edit × Diagram)) := do
  let blocks ← parse markdown
  return diagramEditsAux (LineTable.ofText markdown) 0 (fences blocks)

/-- The text with directives in place of diagrams, and the diagrams. -/
def extractDiagrams (markdown : Text) : Except StructureError (Text × List Diagram) := do
  let found ← diagramEdits markdown
  return (splice markdown (found.map Prod.fst), found.map Prod.snd)

/-! ### Anchors -/

/-- Blocks of this shape get an anchor. Quotes are reached through the blocks inside them, and
tables stay in one piece. -/
def takesAnchor : Shape → Bool
  | .paragraph _ => true
  | .heading _ => true
  | .fence _ _ _ => true
  | .code _ => true
  | .bulletList => true
  | .orderedList => true
  | .item => true
  | _ => false

/-- The offset where the anchor of a block goes. Indented code owns its indentation. -/
def anchorOffset (table : LineTable) (b : Block) : Nat :=
  match b.shape with
  | .code _ => table.lineStart b.first
  | _ => table.firstNonBlank b.first

/-- The line of an offset belongs to a quote. -/
def isQuotedLine (table : LineTable) (offset : Nat) : Bool :=
  let (line, _) := table.lineColumn offset
  ((table.lineText line).dropWhile isSpace).head? == some '>'

/-- Sorted offsets, each once. -/
def dropRepeats : List Nat → List Nat
  | [] => []
  | [n] => [n]
  | m :: n :: ns => if m = n then dropRepeats (n :: ns) else m :: dropRepeats (n :: ns)

/-- The offsets where the anchors of blocks go, in increasing order. -/
def anchorOffsets (table : LineTable) (blocks : List Block) : List Nat :=
  let offsets := (blocks.filter fun b => takesAnchor b.shape).map (anchorOffset table)
  dropRepeats (orderBy (fun m n => m ≤ n) (offsets.filter (!isQuotedLine table ·)))

/-- An anchor before its label is set: its name, and its place in the authored text. -/
structure Mark where
  id : Text
  offset : Nat
  editor : EditorPosition

/-- The anchor of a mark. -/
def Mark.anchor (m : Mark) : Anchor := ⟨CodeText.ofText m.id, m.editor, none⟩

/-- The anchor at the start of the document. -/
def startMark : Mark := ⟨"tf-doc-start".toList, 0, ⟨0, 0, 0⟩⟩

/-- The marks at offsets, numbered from `count` on. -/
def marksFrom (locate : Nat → EditorPosition) (count : Nat) : List Nat → List Mark
  | [] => []
  | offset :: offsets =>
      let editor := locate offset
      ⟨"tf-".toList ++ Text.ofInt editor.offset ++ '-' :: Text.ofNat count, offset, editor⟩ ::
        marksFrom locate (count + 1) offsets

/-- The marks of a document with some blocks. -/
def marks (table : LineTable) (blocks : List Block) (locate : Nat → EditorPosition) : List Mark :=
  startMark :: marksFrom locate 1 (anchorOffsets table blocks)

/-- The edit that inserts the label of a mark. -/
def Mark.edit (table : LineTable) (m : Mark) : Edit :=
  ⟨m.offset, m.offset, labelMarkup table m.offset m.id⟩

/-- The text with labels, and the anchors; `locate` gives the place of an offset in the authored
text. -/
def injectAnchorsBy (locate : Nat → EditorPosition) (markdown : Text) :
    Except StructureError (Text × List Anchor) := do
  let table := LineTable.ofText markdown
  let found := marks table (← parse markdown) locate
  return (splice markdown (found.map (Mark.edit table)), found.map Mark.anchor)

/-- The text with labels, and the anchors in it. -/
def injectAnchors (markdown : Text) : Except StructureError (Text × List Anchor) :=
  injectAnchorsBy (LineTable.ofText markdown).position markdown

/-! ### Both passes -/

/-- What becomes of a document. -/
structure Preprocessed where
  markdown : Text
  anchors : List Anchor
  diagrams : List Diagram

/-- The place in the authored text of an offset in the text without diagrams. -/
def locateSource (markdown : Text) (edits : List Edit) (offset : Nat) : EditorPosition :=
  (LineTable.ofText markdown).position (sourceOffset edits offset).toNat

/-- Takes the diagrams out and sets labels. -/
def preprocess (markdown : Text) : Except StructureError Preprocessed := do
  let found ← diagramEdits markdown
  let edits := found.map Prod.fst
  let (result, anchors) ← injectAnchorsBy (locateSource markdown edits) (splice markdown edits)
  return ⟨result, anchors, found.map Prod.snd⟩

end Galley
