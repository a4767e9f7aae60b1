import Galley.Markdown.Container
import Galley.Markdown.Inline

/-!
The blocks of a document.

* `normalize`: line breaks become line feeds;
* `Names.ofEvents`, `referredNotes`: the labels that a document defines, and the footnotes that it
  refers to;
* `sortEvents`, `Sorting.noteBlocks`: the blocks outside footnotes, and those of one footnote;
* `parse`: the blocks outside footnotes, and then those of the footnotes that are referred to,
  unless the text has no block structure.
-/

namespace Galley.Markdown

/-- The text with line feeds for all line breaks, and the replacement character for NUL. -/
def normalize : Text → Text
  | [] => []
  | '\r' :: '\n' :: cs => '\n' :: normalize cs
  | c :: cs => (if c == '\r' then '\n' else if c == '\x00' then '\uFFFD' else c) :: normalize cs

/-! ### Labels -/

/-- The labels that events define. -/
def Names.ofEvents (events : List Event) : Names :=
  { links := events.filterMap fun
      | .link label => some label
      | _ => none
    notes := events.filterMap fun
      | .openNote label => some label
      | _ => none }

/-- The texts that are read for inline markup, inside footnotes and outside. -/
def inlineTexts (events : List Event) : List Text :=
  events.flatMap fun
    | .block b => b.shape.inlineTexts
    | _ => []

/-- The members of a list, each where it occurs first. -/
def distinct (seen : List Text) : List Text → List Text
  | [] => []
  | t :: ts => if seen.contains t then distinct seen ts else t :: distinct (t :: seen) ts

/-- The labels of the footnotes that a document refers to anywhere, in the order of their first
references. -/
def referredNotes (events : List Event) : List Text :=
  let names := Names.ofEvents events
  if names.notes.isEmpty then []
  else distinct [] ((inlineTexts events).flatMap (references names))

/-! ### Footnotes -/

/-- Where the blocks of a document belong: outside footnotes, or to the footnotes of a label. -/
structure Sorting where
  outside : List Block
  notes : List (Text × List Block)

/-- Sorts events. Outside a footnote `current` is kept for an outer footnote that ends later, under
the label that was opened last. -/
def sortEvents (inside : Bool) (current : List Block) (label : Text) : List Event → Sorting
  | [] => ⟨[], []⟩
  | .openNote l :: es => sortEvents true [] l es
  | .closeNote :: es =>
      let s := sortEvents false current label es
      { s with notes := (label, current) :: s.notes }
  | .link _ :: es => sortEvents inside current label es
  | .shortLine :: es => sortEvents inside current label es
  | .block b :: es =>
      if inside then sortEvents true (current ++ [b]) label es
      else
        let s := sortEvents false current label es
        { s with outside := b :: s.outside }

/-- The blocks of the footnote with a label; of several footnotes the last one counts. -/
def Sorting.noteBlocks (s : Sorting) (label : Text) : List Block :=
  (s.notes.reverse.lookup label).getD []

/-- The blocks of the events: those outside footnotes in order, and then those of the footnotes that
are referred to. -/
def blocksOf (events : List Event) : List Block :=
  let s := sortEvents false [] [] events
  s.outside ++ (referredNotes events).flatMap s.noteBlocks

/-- The events of a document. -/
def documentEvents (text : Text) : List Event := blockEvents (Lines.ofText (normalize text))

/-- The blocks of a document, if it has a block structure. -/
def parse (text : Text) : Except StructureError (List Block) :=
  let events := documentEvents text
  if events.contains .shortLine then .error .shortLine else .ok (blocksOf events)

end Galley.Markdown
